import HtmlIds.Text.Blank
import Mathlib.Data.List.DropRight

namespace HtmlIds

def bytesOf (text : List Char) : List UInt8 :=
  text.flatMap String.utf8EncodeChar

theorem bytesOf_append (text more : List Char) :
    bytesOf (text ++ more) = bytesOf text ++ bytesOf more :=
  List.flatMap_append

theorem toByteArray_bytesOf (text : List Char) :
    (⟨(bytesOf text).toArray⟩ : ByteArray) = text.utf8Encode := by
  rw [List.utf8Encode, bytesOf]
  exact ByteArray.ext (by simp)

theorem fromUTF8?_bytesOf (text : List Char) :
    String.fromUTF8? ⟨(bytesOf text).toArray⟩ = some (String.ofList text) := by
  rw [toByteArray_bytesOf, String.fromUTF8?, dif_pos ByteArray.isValidUTF8_utf8Encode]
  exact congrArg some (String.toByteArray_inj.1 (by simp [String.fromUTF8]))

theorem mem_utf8EncodeChar_iff {c : Char} : 10 ∈ String.utf8EncodeChar c ↔ c = '\n' := by
  constructor
  · intro h
    have hbyte {n : Nat} (hn : n < 256) (heq : (10 : UInt8) = UInt8.ofNat n) : n = 10 := by
      have hnat := congrArg UInt8.toNat heq
      rw [UInt8.toNat_ofNat', Nat.mod_eq_of_lt hn] at hnat
      exact hnat.symm
    apply Char.toNat_inj.1
    change c.toNat = 10
    change 10 ∈ (if c.toNat ≤ 127 then _ else _) at h
    split at h
    · exact hbyte (by omega) (List.mem_singleton.1 h)
    split at h
    · simp only [List.mem_cons, List.not_mem_nil, or_false] at h
      rcases h with h | h <;> have := hbyte (by omega) h <;> omega
    split at h
    · simp only [List.mem_cons, List.not_mem_nil, or_false] at h
      rcases h with h | h | h <;> have := hbyte (by omega) h <;> omega
    · simp only [List.mem_cons, List.not_mem_nil, or_false] at h
      rcases h with h | h | h | h <;> have := hbyte (by omega) h <;> omega
  · rintro rfl
    decide

theorem mem_bytesOf_iff {text : List Char} : 10 ∈ bytesOf text ↔ '\n' ∈ text := by
  simp [bytesOf, List.mem_flatMap, mem_utf8EncodeChar_iff]

theorem trimRight_eq_nil_iff {text : List Char} :
    trimRight text = [] ↔ ∀ c ∈ text, isBlank c = true :=
  List.rdropWhile_eq_nil_iff

theorem trim_eq_nil_iff {text : List Char} : trim text = [] ↔ ∀ c ∈ text, isBlank c = true := by
  rw [trim, trimRight_eq_nil_iff, trimLeft]
  constructor
  · intro h c hc
    rw [← List.takeWhile_append_dropWhile (p := isBlank) (l := text)] at hc
    rcases List.mem_append.1 hc with hbefore | hafter
    · exact List.mem_takeWhile_imp hbefore
    · exact h c hafter
  · exact fun h c hc => h c (List.dropWhile_subset isBlank hc)

theorem trimRight_prefix_self (text : List Char) : trimRight text <+: text :=
  List.rdropWhile_prefix isBlank text

theorem trimRight_concat {c : Char} (h : isBlank c = false) (text : List Char) :
    trimRight (text ++ [c]) = text ++ [c] :=
  List.rdropWhile_concat_neg isBlank text c (by simp [h])

theorem trimRight_append_blank {ending : List Char} (h : ∀ c ∈ ending, isBlank c = true)
    (text : List Char) : trimRight (text ++ ending) = trimRight text := by
  induction ending using List.reverseRecOn with
  | nil => rw [List.append_nil]
  | append_singleton ending c ih =>
      obtain ⟨hending, hc⟩ := List.forall_mem_append.1 h
      rw [← List.append_assoc, ← ih hending]
      exact List.rdropWhile_concat_pos _ _ _ (hc c (List.mem_singleton_self c))

end HtmlIds
