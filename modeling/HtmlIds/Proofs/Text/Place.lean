import HtmlIds.Proofs.Text.Length
import Mathlib.Data.List.Induction

namespace HtmlIds

@[simp] theorem utf16Length_nil : utf16Length [] = 0 := rfl

@[simp] theorem utf16Length_cons (c : Char) (rest : List Char) :
    utf16Length (c :: rest) = utf16Width c + utf16Length rest := rfl

@[simp] theorem utf16Length_append (front back : List Char) :
    utf16Length (front ++ back) = utf16Length front + utf16Length back := by
  induction front with
  | nil => simp
  | cons c front ih => simp [ih, Nat.add_assoc]

theorem utf16Width_pos (c : Char) : 0 < utf16Width c := by
  unfold utf16Width
  split <;> decide

theorem utf16Length_pos {text : List Char} (h : text ≠ []) : 0 < utf16Length text := by
  obtain ⟨c, rest, rfl⟩ := List.exists_cons_of_ne_nil h
  exact Nat.lt_add_right _ (utf16Width_pos c)

theorem utf16Width_le_utf8Size (c : Char) : utf16Width c ≤ c.utf8Size := by
  unfold utf16Width
  split
  · exact c.utf8Size_pos
  · next h =>
      have hsize : c.utf8Size = 4 := by
        have hval : c.val.toNat = c.toNat := rfl
        simp only [Char.utf8Size, UInt32.le_iff_toNat_le, hval]
        split
        · next hle => exact absurd (Nat.le_trans hle (by decide : _ ≤ 0xFFFF)) (by omega)
        split
        · next hle => exact absurd (Nat.le_trans hle (by decide : _ ≤ 0xFFFF)) (by omega)
        split
        · next hle => exact absurd (Nat.le_trans hle (by decide : _ ≤ 0xFFFF)) (by omega)
        · rfl
      omega

theorem utf16Length_le_utf8Length (text : List Char) : utf16Length text ≤ utf8Length text := by
  induction text with
  | nil => exact Nat.le_refl 0
  | cons c rest ih => exact Nat.add_le_add (utf16Width_le_utf8Size c) ih

def advance (place : Nat × Nat) (c : Char) : Nat × Nat :=
  if c = '\n' then (place.1 + 1, 0) else (place.1, place.2 + utf16Width c)

def placeAfter (text : List Char) : Nat × Nat :=
  text.foldl advance (0, 0)

theorem placeAfter_concat (text : List Char) (c : Char) :
    placeAfter (text ++ [c]) = advance (placeAfter text) c := by
  rw [placeAfter, List.foldl_append]
  rfl

def PlaceLt (p q : Nat × Nat) : Prop :=
  p.1 < q.1 ∨ p.1 = q.1 ∧ p.2 < q.2

theorem PlaceLt.trans {p q r : Nat × Nat} (h : PlaceLt p q) (h' : PlaceLt q r) : PlaceLt p r := by
  unfold PlaceLt at *
  omega

theorem placeLt_advance (place : Nat × Nat) (c : Char) : PlaceLt place (advance place c) := by
  unfold PlaceLt advance
  split
  · exact .inl (Nat.lt_succ_self _)
  · exact .inr ⟨rfl, Nat.lt_add_of_pos_right (utf16Width_pos c)⟩

theorem placeLt_placeAfter_append (front : List Char) {back : List Char} (h : back ≠ []) :
    PlaceLt (placeAfter front) (placeAfter (front ++ back)) := by
  induction back using List.reverseRecOn with
  | nil => exact absurd rfl h
  | append_singleton back c ih =>
      have hstep := placeLt_advance (placeAfter (front ++ back)) c
      rw [← List.append_assoc, placeAfter_concat]
      by_cases hback : back = []
      · rw [hback, List.append_nil] at hstep ⊢
        exact hstep
      · exact (ih hback).trans hstep

theorem placeAfter_append_of_not_mem (front : List Char) {back : List Char} (h : '\n' ∉ back) :
    placeAfter (front ++ back) = ((placeAfter front).1, (placeAfter front).2 + utf16Length back) := by
  induction back using List.reverseRecOn with
  | nil => rw [List.append_nil]; rfl
  | append_singleton back c ih =>
      simp only [List.mem_append, List.mem_singleton, not_or] at h
      rw [← List.append_assoc, placeAfter_concat, ih h.1, advance, if_neg fun e => h.2 e.symm,
        utf16Length_append, Nat.add_assoc]
      rfl

theorem Position.not_lt_self (p : Position) : ¬p < p := by
  rintro (h | ⟨-, h⟩) <;> exact UInt32.lt_irrefl _ h

theorem Position.le_refl (p : Position) : p ≤ p :=
  .inr ⟨rfl, UInt32.le_refl _⟩

theorem Position.le_of_lt {p q : Position} (h : p < q) : p ≤ q := by
  rcases h with hline | ⟨hline, hcharacter⟩
  · exact .inl hline
  · exact .inr ⟨hline, UInt32.le_of_lt hcharacter⟩

def toPosition (place : Nat × Nat) : Position :=
  ⟨place.1.toUInt32, place.2.toUInt32⟩

theorem onLine_placeAfter (before : List Char) {word : List Char} (h : '\n' ∉ word) :
    Range.onLine (toPosition (placeAfter before)) (utf16Length word).toUInt32 =
      ⟨toPosition (placeAfter before), toPosition (placeAfter (before ++ word))⟩ := by
  rw [placeAfter_append_of_not_mem _ h]
  exact congrArg (fun column => Range.mk _ ⟨_, column⟩) (UInt32.ofNat_add _ _).symm

theorem placeAfter_le (text : List Char) :
    (placeAfter text).1 ≤ utf8Length text ∧ (placeAfter text).2 ≤ utf8Length text := by
  induction text using List.reverseRecOn with
  | nil => exact ⟨Nat.le_refl 0, Nat.le_refl 0⟩
  | append_singleton text c ih =>
      have hpos := c.utf8Size_pos
      have hwidth := utf16Width_le_utf8Size c
      rw [placeAfter_concat, advance, utf8Length_append, utf8Length_cons, utf8Length_nil]
      split
      · exact ⟨by omega, Nat.zero_le _⟩
      · exact ⟨by omega, by omega⟩

theorem toNat_toUInt32 {n : Nat} (h : n < UInt32.size) : n.toUInt32.toNat = n :=
  UInt32.toNat_ofNat_of_lt h

def InWords (text : List Char) : Prop :=
  (placeAfter text).1 < UInt32.size ∧ (placeAfter text).2 < UInt32.size

theorem inWords_of_lt {text : List Char} (h : utf8Length text < UInt32.size) : InWords text :=
  ⟨Nat.lt_of_le_of_lt (placeAfter_le text).1 h, Nat.lt_of_le_of_lt (placeAfter_le text).2 h⟩

theorem toNat_placeAfter {text : List Char} (h : InWords text) :
    (toPosition (placeAfter text)).line.toNat = (placeAfter text).1 ∧
      (toPosition (placeAfter text)).character.toNat = (placeAfter text).2 :=
  ⟨toNat_toUInt32 h.1, toNat_toUInt32 h.2⟩

theorem toPosition_lt {p q : Nat × Nat} (h : PlaceLt p q) (hline : q.1 < UInt32.size)
    (hcolumn : q.2 < UInt32.size) : toPosition p < toPosition q := by
  have hlt {m n : Nat} (hmn : m < n) (hn : n < UInt32.size) : m.toUInt32 < n.toUInt32 := by
    rw [UInt32.lt_iff_toNat_lt, toNat_toUInt32 hn, toNat_toUInt32 (Nat.lt_trans hmn hn)]
    exact hmn
  rcases h with h | ⟨heq, h⟩
  · exact .inl (hlt h hline)
  · exact .inr ⟨congrArg Nat.toUInt32 heq, hlt h hcolumn⟩

theorem toPosition_placeAfter_lt {front back : List Char}
    (hsize : utf8Length (front ++ back) < UInt32.size) (h : back ≠ []) :
    toPosition (placeAfter front) < toPosition (placeAfter (front ++ back)) := by
  obtain ⟨hline, hcolumn⟩ := placeAfter_le (front ++ back)
  exact toPosition_lt (placeLt_placeAfter_append front h) (Nat.lt_of_le_of_lt hline hsize)
    (Nat.lt_of_le_of_lt hcolumn hsize)

end HtmlIds
