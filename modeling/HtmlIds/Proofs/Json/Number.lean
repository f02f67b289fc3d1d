import HtmlIds.Json.Basic
import HtmlIds.Json.Number

namespace HtmlIds.JsonNumber

def IsWord : JsonNumber → Prop
  | .integer n => -0x8000000000000000 ≤ n ∧ n < 0x10000000000000000
  | .written _ => False

theorem digitsValue_toDigits (n : Nat) : digitsValue (Nat.toDigits 10 n) = n :=
  Nat.ofDigitChars_ten_toDigits

theorem isDigit_of_mem_toDigits {n : Nat} {c : Char} (h : c ∈ Nat.toDigits 10 n) :
    c.isDigit = true :=
  Nat.isDigit_of_mem_toDigits (by decide) (by decide) h

theorem head_toDigits_ne_zero {n : Nat} (hn : n ≠ 0) {c : Char} {rest : List Char}
    (h : Nat.toDigits 10 n = c :: rest) : c ≠ '0' := by
  have hdigit : ∀ d < 10, d ≠ 0 → d.digitChar ≠ '0' := by decide
  induction n using Nat.strongRecOn generalizing c rest with
  | ind n ih =>
    rw [Nat.toDigits_eq_if (by decide)] at h
    split at h
    · next hlt =>
        obtain rfl : n.digitChar = c := (List.cons.inj h).1
        exact hdigit n hlt hn
    · next hge =>
        obtain ⟨front, back, hfront⟩ := List.exists_cons_of_ne_nil
          (Nat.toDigits_ne_nil : Nat.toDigits 10 (n / 10) ≠ [])
        rw [hfront, List.cons_append] at h
        obtain rfl := (List.cons.inj h).1
        exact ih (n / 10) (by omega) (by omega) hfront

theorem exists_toDigits (n : Nat) : ∃ c rest, Nat.toDigits 10 n = c :: rest ∧
    c.isDigit = true ∧ (∀ d ∈ rest, d.isDigit = true) ∧ (c = '0' ↔ n = 0) ∧
      (c = '0' → rest = []) := by
  obtain ⟨c, rest, h⟩ := List.exists_cons_of_ne_nil
    (Nat.toDigits_ne_nil : Nat.toDigits 10 n ≠ [])
  refine ⟨c, rest, h, ?_, fun d hd => ?_, ?_⟩
  · exact isDigit_of_mem_toDigits (h ▸ List.mem_cons_self)
  · exact isDigit_of_mem_toDigits (h ▸ List.mem_cons_of_mem c hd)
  · by_cases hn : n = 0
    · rw [hn, Nat.toDigits_zero] at h
      obtain ⟨rfl, rfl⟩ := List.cons.inj h
      simp [hn]
    · have hc := head_toDigits_ne_zero hn h
      simp [hn, hc]

theorem ne_minus_of_isDigit {c : Char} (h : c.isDigit = true) : c ≠ '-' := by
  rintro rfl
  exact absurd h (by decide)

theorem takeWhile_digits {digits : List Char} (h : ∀ c ∈ digits, c.isDigit = true) :
    digits.takeWhile Char.isDigit = digits := by
  have hall : (digits ++ []).takeWhile Char.isDigit = digits ++ [].takeWhile Char.isDigit :=
    List.takeWhile_append_of_pos h
  simpa using hall

theorem parts_of_digits {digits : List Char} (h : ∀ c ∈ digits, c.isDigit = true) :
    parts digits = ⟨false, digits, [], none⟩ := by
  have hhead : digits.head? ≠ some '-' := fun hd =>
    ne_minus_of_isDigit (h _ (List.mem_of_mem_head? hd)) rfl
  simp [parts, takeWhile_digits h, beq_eq_false_iff_ne.2 hhead]

theorem parts_of_negative {digits : List Char} (h : ∀ c ∈ digits, c.isDigit = true) :
    parts ('-' :: digits) = ⟨true, digits, [], none⟩ := by
  simp [parts, takeWhile_digits h]

theorem ofWritten_toDigits {n : Nat} (h : n < 0x10000000000000000) :
    ofWritten (Nat.toDigits 10 n) = some (.integer n) := by
  have hsize : n < UInt64.size := h
  simp only [ofWritten, parts_of_digits fun _ => isDigit_of_mem_toDigits, digitsValue_toDigits]
  simp [hsize]

theorem ofWritten_negative {n : Nat} (hpos : 0 < n) (h : n ≤ 0x8000000000000000) :
    ofWritten ('-' :: Nat.toDigits 10 n) = some (.integer (-n)) := by
  simp only [ofWritten, parts_of_negative fun _ => isDigit_of_mem_toDigits, digitsValue_toDigits]
  simp [hpos, h]

theorem writeNumber_ofNat (n : Nat) : Json.writeNumber (.integer n) = Nat.toDigits 10 n := by
  simp [Json.writeNumber, Int.repr_eq_if]

theorem writeNumber_negative {n : Nat} (hn : n ≠ 0) :
    Json.writeNumber (.integer (-n)) = '-' :: Nat.toDigits 10 n := by
  simp [Json.writeNumber, Int.repr_eq_if, hn, Nat.toList_repr]

theorem IsWord.cases {number : JsonNumber} (h : number.IsWord) :
    (∃ n : Nat, number = .integer n ∧ n < 0x10000000000000000) ∨
    ∃ n : Nat, number = .integer (-n) ∧ n ≠ 0 ∧ n ≤ 0x8000000000000000 := by
  cases number with
  | written text => exact h.elim
  | integer n =>
      obtain ⟨hlow, hhigh⟩ := h
      by_cases hn : 0 ≤ n
      · obtain ⟨m, rfl⟩ := Int.eq_ofNat_of_zero_le hn
        exact .inl ⟨m, rfl, by omega⟩
      · obtain ⟨m, rfl⟩ : ∃ m : Nat, n = -m := ⟨n.natAbs, by omega⟩
        exact .inr ⟨m, rfl, by omega, by omega⟩

theorem ofWritten_writeNumber {number : JsonNumber} (h : number.IsWord) :
    ofWritten (Json.writeNumber number) = some number := by
  rcases h.cases with ⟨n, rfl, hn⟩ | ⟨n, rfl, hpos, hn⟩
  · rw [writeNumber_ofNat]
    exact ofWritten_toDigits hn
  · rw [writeNumber_negative hpos]
    exact ofWritten_negative (Nat.pos_of_ne_zero hpos) hn

end HtmlIds.JsonNumber
