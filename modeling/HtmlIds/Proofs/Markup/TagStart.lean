import HtmlIds.Markup.IdAttribute
import HtmlIds.Proofs.Text.Blank
import HtmlIds.Proofs.Text.Length
import HtmlIds.Proofs.Text.Run

namespace HtmlIds

variable {text : List Char} {p p' q q' g g' : Nat} {name name' value : List Char}

structure TagStart (text : List Char) (p : Nat) (name : List Char) : Prop where
  opens : text[p]? = some '<'
  name_eq : name = (text.drop (p + 1)).takeWhile isNameChar
  name_ne_nil : name ≠ []

structure Tag (text : List Char) (p : Nat) (name : List Char) (g : Nat) : Prop
    extends TagStart text p name where
  stop : FirstFrom text '>' (p + 1 + name.length) g

def OpensId (text : List Char) (q : Nat) (value : List Char) : Prop :=
  ∃ blank i d quote close after, 4 ≤ q ∧
    text.drop (q - 4) = blank :: i :: d :: '=' :: quote :: (value ++ close :: after) ∧
    isBlank blank = true ∧ (i = 'i' ∨ i = 'I') ∧ (d = 'd' ∨ d = 'D') ∧ isQuote quote = true ∧
    value ≠ [] ∧ (∀ c ∈ value, isQuote c = false) ∧ isQuote close = true

structure IdCandidate (text : List Char) (p : Nat) (name : List Char) (g q : Nat)
    (value : List Char) : Prop where
  opens : OpensId text q value
  after_name : p + name.length < q
  before_stop : q < g

structure LastIdCandidate (text : List Char) (p : Nat) (name : List Char) (g q : Nat)
    (value : List Char) : Prop extends IdCandidate text p name g q value where
  last : ∀ q' value', IdCandidate text p name g q' value' → q' ≤ q

theorem isNameChar_iff {c : Char} : isNameChar c = true ↔
    ((65 ≤ c.toNat ∧ c.toNat ≤ 90 ∨ 97 ≤ c.toNat ∧ c.toNat ≤ 122) ∨
      48 ≤ c.toNat ∧ c.toNat ≤ 57) ∨ c.toNat = 95 := by
  have hunderscore : c = '_' ↔ c.toNat = 95 := Char.toNat_inj.symm
  rw [isNameChar, Bool.or_eq_true, isAlphanum_iff, beq_iff_eq, hunderscore]

theorem isNameChar_eq_false_of_isBlank {c : Char} (h : isBlank c = true) : isNameChar c = false := by
  rw [← Bool.not_eq_true, isNameChar_iff]
  simp [isBlank, blankRanges] at h
  omega

theorem TagStart.exists_nameChar {k : Nat} (h : TagStart text p name) (hlt : p < k)
    (hle : k ≤ p + name.length) : ∃ c, text[k]? = some c ∧ isNameChar c = true := by
  obtain ⟨n, rfl⟩ := Nat.exists_eq_add_of_lt hlt
  have hn : n < ((text.drop (p + 1)).takeWhile isNameChar).length := by
    rw [← h.name_eq]
    omega
  obtain ⟨c, hc, hname⟩ := exists_getElem?_of_lt_run hn
  rw [List.getElem?_drop] at hc
  exact ⟨c, (congrArg (text[·]?) (by omega)).trans hc, hname⟩

theorem TagStart.after_name {k : Nat} {c : Char} (h : TagStart text p name) (hlt : p < k)
    (hk : text[k]? = some c) (hc : isNameChar c = false) : p + name.length < k := by
  refine Nat.lt_of_not_le fun hle => ?_
  obtain ⟨c', hc', hname⟩ := h.exists_nameChar hlt hle
  obtain rfl := Option.some.inj (hk.symm.trans hc')
  exact Bool.false_ne_true (hc.symm.trans hname)

theorem Tag.stop_le {k : Nat} (h : Tag text p name g) (hlt : p < k)
    (hk : text[k]? = some '>') : g ≤ k := by
  have hafter : p + name.length < k := h.after_name hlt hk (by decide)
  exact h.stop.le_of_found (by omega) hk

theorem Tag.lt_stop (h : Tag text p name g) : p < g := by
  have hle := h.stop.le
  omega

theorem Tag.stop_mono (h : Tag text p name g) (h' : Tag text p' name' g')
    (hle : p ≤ p') : g ≤ g' :=
  h.stop_le (Nat.lt_of_le_of_lt hle h'.lt_stop) h'.stop.found

theorem Tag.stop_lt (h : Tag text p name g) (h' : Tag text p' name' g')
    (hlt : g < g') : g < p' := by
  refine Nat.lt_of_not_le fun hle => ?_
  rcases Nat.lt_or_eq_of_le hle with hp | rfl
  · exact Nat.not_le_of_lt hlt (h'.stop_le hp h.stop.found)
  · cases h'.opens.symm.trans h.stop.found

theorem OpensId.getElem? (h : OpensId text q value) : ∃ blank i d quote, 4 ≤ q ∧
    text[q - 4]? = some blank ∧ text[q - 3]? = some i ∧ text[q - 2]? = some d ∧
    text[q - 1]? = some '=' ∧ text[q]? = some quote ∧ isBlank blank = true ∧
    (i = 'i' ∨ i = 'I') ∧ (d = 'd' ∨ d = 'D') ∧ isQuote quote = true := by
  obtain ⟨blank, i, d, quote, close, after, hq, hdrop, hblank, hi, hd, hquote, -⟩ := h
  have hget (n : Nat) : text[q - 4 + n]? = (text.drop (q - 4))[n]? := List.getElem?_drop.symm
  refine ⟨blank, i, d, quote, hq, ?_, ?_, ?_, ?_, ?_, hblank, hi, hd, hquote⟩
  · simpa [hdrop] using hget 0
  · simpa [hdrop, show q - 4 + 1 = q - 3 by omega] using hget 1
  · simpa [hdrop, show q - 4 + 2 = q - 2 by omega] using hget 2
  · simpa [hdrop, show q - 4 + 3 = q - 1 by omega] using hget 3
  · simpa [hdrop, show q - 4 + 4 = q by omega] using hget 4

theorem ne_bracket_of_isBlank {c : Char} (h : isBlank c = true) : c ≠ '<' ∧ c ≠ '>' := by
  constructor <;> rintro rfl <;> exact absurd h (by decide)

theorem ne_bracket_of_isQuote {c : Char} (h : isQuote c = true) : c ≠ '<' ∧ c ≠ '>' := by
  constructor <;> rintro rfl <;> exact absurd h (by decide)

theorem OpensId.ne_bracket {k : Nat} {c : Char} (h : OpensId text q value) (hle : q - 4 ≤ k)
    (hkq : k ≤ q) (hk : text[k]? = some c) : c ≠ '<' ∧ c ≠ '>' := by
  obtain ⟨blank, i, d, quote, hq, h4, h3, h2, h1, h0, hblank, hi, hd, hquote⟩ := h.getElem?
  obtain rfl | rfl | rfl | rfl | rfl :
      k = q - 4 ∨ k = q - 3 ∨ k = q - 2 ∨ k = q - 1 ∨ k = q := by omega
  · obtain rfl := Option.some.inj (h4.symm.trans hk)
    exact ne_bracket_of_isBlank hblank
  · obtain rfl := Option.some.inj (h3.symm.trans hk)
    rcases hi with rfl | rfl <;> decide
  · obtain rfl := Option.some.inj (h2.symm.trans hk)
    rcases hd with rfl | rfl <;> decide
  · obtain rfl := Option.some.inj (h1.symm.trans hk)
    decide
  · obtain rfl := Option.some.inj (h0.symm.trans hk)
    exact ne_bracket_of_isQuote hquote

theorem OpensId.eq_run (h : OpensId text q value) :
    value = (text.drop (q + 1)).takeWhile (!isQuote ·) := by
  obtain ⟨blank, i, d, quote, close, after, hq, hdrop, -, -, -, -, -, hvalue, hclose⟩ := h
  have hrest : text.drop (q + 1) = value ++ close :: after := by
    rw [show q + 1 = q - 4 + 5 by omega, ← List.drop_drop, hdrop]
    rfl
  rw [hrest, takeWhile_append_cons (by simpa using hvalue) (by simpa using hclose)]

theorem OpensId.blank_after_name (h : OpensId text q value) (htag : Tag text p name g)
    (hlt : p < q) : p + name.length + 4 < q := by
  obtain ⟨blank, -, -, -, hq, hget, -, -, -, -, hblank, -⟩ := h.getElem?
  have hp : p < q - 4 :=
    Nat.lt_of_not_le fun hle => (h.ne_bracket hle (Nat.le_of_lt hlt) htag.opens).1 rfl
  have hafter := htag.after_name hp hget (isNameChar_eq_false_of_isBlank hblank)
  omega

theorem OpensId.ne_nil (h : OpensId text q value) : value ≠ [] := by
  obtain ⟨-, -, -, -, -, -, -, -, -, -, -, -, hne, -⟩ := h
  exact hne

theorem OpensId.take_eq (h : OpensId text q value) :
    (text.drop (q + 1)).take value.length = value := by
  have hrun := take_run_length (!isQuote ·) (text.drop (q + 1))
  rw [← h.eq_run] at hrun
  exact hrun

theorem OpensId.exists_eq_append (h : OpensId text q value) : ∃ opening closing after,
    text = text.take (q + 1) ++ value ++ closing :: after ∧
      (text.take (q + 1)).getLast? = some opening ∧
      isQuote opening = true ∧ isQuote closing = true := by
  obtain ⟨blank, i, d, opening, closing, after, hq, hdrop, -, -, -, hopening, -, -, hclosing⟩ := h
  have hrest : text.drop q = opening :: (value ++ closing :: after) := by
    rw [show q = q - 4 + 4 by omega, ← List.drop_drop, hdrop]
    rfl
  have htake : text.take (q + 1) = text.take q ++ [opening] := by
    rw [List.take_add, hrest]
    rfl
  refine ⟨opening, closing, after, ?_, ?_, hopening, hclosing⟩
  · rw [htake, List.append_assoc, List.append_assoc, List.singleton_append, ← hrest,
      List.take_append_drop]
  · rw [htake, List.getLast?_concat]

theorem OpensId.candidate (h : OpensId text q value) (htag : Tag text p name g)
    (hlt : p < q) (hstop : q < g) : IdCandidate text p name g q value := by
  have hafter := h.blank_after_name htag hlt
  exact ⟨h, by omega, hstop⟩

theorem IdCandidate.lt (h : IdCandidate text p name g q value) : p < q :=
  Nat.lt_of_le_of_lt (Nat.le_add_right ..) h.after_name

theorem LastIdCandidate.unique {value' : List Char} (h : LastIdCandidate text p name g q value)
    (h' : LastIdCandidate text p' name' g q' value') (htag : Tag text p name g)
    (htag' : Tag text p' name' g) : q = q' ∧ value = value' := by
  have hq : q = q' := by
    refine Nat.le_antisymm (Nat.le_of_not_lt fun hlt => ?_) (Nat.le_of_not_lt fun hlt => ?_)
    · have hlast := h'.last q value
        (h.opens.candidate htag' (Nat.lt_trans h'.lt hlt) h.before_stop)
      omega
    · have hlast := h.last q' value'
        (h'.opens.candidate htag (Nat.lt_trans h.lt hlt) h'.before_stop)
      omega
  refine ⟨hq, ?_⟩
  rw [h.opens.eq_run, h'.opens.eq_run, hq]

end HtmlIds
