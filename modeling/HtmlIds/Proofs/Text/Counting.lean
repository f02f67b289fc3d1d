import HtmlIds.Proofs.Text.Bytes
import HtmlIds.Proofs.Text.LineTable
import Mathlib.Data.Set.Function
import Mathlib.Order.Bounds.Basic

namespace HtmlIds

def lastLine (text : List Char) : List Char :=
  text.rtakeWhile (· ≠ '\n')

def IsBoundary (text : List Char) (offset : Nat) : Prop :=
  ∃ before, before <+: text ∧ utf8Length before = offset

def IsFloor (text : List Char) (offset boundary : Nat) : Prop :=
  IsGreatest {o | IsBoundary text o ∧ o ≤ min offset (utf8Length text)} boundary

structure PositionsCount (text : List Char) : Prop where
  counts : ∀ offset, ∃ before, before <+: text ∧ IsFloor text offset (utf8Length before) ∧
    ((LineTable.ofList text).positionAt offset).line.toNat = (bytesOf before).count 10 ∧
    ((LineTable.ofList text).positionAt offset).character.toNat = utf16Length (lastLine before)
  monotone : ∀ offset offset', offset ≤ offset' →
    (LineTable.ofList text).positionAt offset ≤ (LineTable.ofList text).positionAt offset'
  strict : ∀ offset offset', IsBoundary text offset → IsBoundary text offset' → offset < offset' →
    (LineTable.ofList text).positionAt offset < (LineTable.ofList text).positionAt offset'
  injective : Set.InjOn (LineTable.ofList text).positionAt {o | IsBoundary text o}

theorem count_bytesOf (text : List Char) : (bytesOf text).count 10 = text.count '\n' := by
  induction text with
  | nil => rfl
  | cons c rest ih =>
      have hbytes : bytesOf (c :: rest) = String.utf8EncodeChar c ++ bytesOf rest := rfl
      rw [hbytes, List.count_append, ih, List.count_cons]
      by_cases hc : c = '\n'
      · subst hc
        exact Nat.add_comm 1 _
      · rw [List.count_eq_zero.2 (mt mem_utf8EncodeChar_iff.1 hc)]
        simp [hc]

theorem placeAfter_eq (text : List Char) :
    placeAfter text = (text.count '\n', utf16Length (lastLine text)) := by
  induction text using List.reverseRecOn with
  | nil => rfl
  | append_singleton text c ih =>
      rw [placeAfter_concat, ih, advance, List.count_append]
      split
      · next hc => simp [hc, lastLine]
      · next hc => simp [hc, lastLine]

theorem toNat_line_placeAfter {text : List Char} (h : utf8Length text < UInt32.size) :
    (toPosition (placeAfter text)).line.toNat = text.count '\n' := by
  rw [(toNat_placeAfter (inWords_of_lt h)).1, placeAfter_eq]

theorem exists_isFloor (text : List Char) (offset : Nat) :
    ∃ before, before <+: text ∧ IsFloor text offset (utf8Length before) ∧
      (LineTable.ofList text).positionAt offset = toPosition (placeAfter before) := by
  obtain ⟨before, after, excess, rfl, rfl, hexcess⟩ := exists_excess text offset
  have hprefix : before <+: before ++ after := List.prefix_append before after
  refine ⟨before, hprefix, ⟨⟨⟨before, hprefix, rfl⟩, ?_⟩, ?_⟩,
    LineTable.positionAt_add before excess hexcess⟩
  · exact Nat.le_min.2 ⟨Nat.le_add_right .., utf8Length_mono hprefix⟩
  · rintro _ ⟨⟨longer, hlonger, rfl⟩, hle⟩
    refine Nat.le_of_not_lt fun hlt => ?_
    -- a longer beginning has one more character, and the excess is less than that
    obtain ⟨more, rfl⟩ := prefix_of_utf8Length_le hprefix hlonger (Nat.le_of_lt hlt)
    cases more with
    | nil => simp at hlt
    | cons c more =>
        have hafter := (List.prefix_append_right_inj before).1 hlonger
        obtain ⟨rest, rfl⟩ := hafter
        have hsize : excess < c.utf8Size := hexcess c rfl
        rw [utf8Length_append, utf8Length_cons] at hle
        omega

theorem IsFloor.mono {text : List Char} {offset offset' boundary boundary' : Nat}
    (h : IsFloor text offset boundary) (h' : IsFloor text offset' boundary')
    (hle : offset ≤ offset') : boundary ≤ boundary' := by
  obtain ⟨hboundary, hmin⟩ := h.1
  exact h'.2 ⟨hboundary, Nat.le_trans hmin (by omega)⟩

theorem positionAt_le {text : List Char} (hsize : utf8Length text < UInt32.size)
    {offset offset' : Nat} (hle : offset ≤ offset') :
    (LineTable.ofList text).positionAt offset ≤ (LineTable.ofList text).positionAt offset' := by
  obtain ⟨before, hbefore, hfloor, hposition⟩ := exists_isFloor text offset
  obtain ⟨before', hbefore', hfloor', hposition'⟩ := exists_isFloor text offset'
  obtain ⟨more, rfl⟩ := prefix_of_utf8Length_le hbefore hbefore' (hfloor.mono hfloor' hle)
  rw [hposition, hposition']
  by_cases hmore : more = []
  · rw [hmore, List.append_nil]
    exact Position.le_refl _
  · have hlt := Nat.lt_of_le_of_lt (utf8Length_mono hbefore') hsize
    exact Position.le_of_lt (toPosition_placeAfter_lt hlt hmore)

theorem IsBoundary.positionAt_lt {text : List Char} (hsize : utf8Length text < UInt32.size)
    {offset offset' : Nat} (h : IsBoundary text offset) (h' : IsBoundary text offset')
    (hlt : offset < offset') :
    (LineTable.ofList text).positionAt offset < (LineTable.ofList text).positionAt offset' := by
  obtain ⟨before, ⟨after, hbefore⟩, rfl⟩ := h
  obtain ⟨before', ⟨after', hbefore'⟩, rfl⟩ := h'
  exact LineTable.positionAt_lt hsize hbefore.symm hbefore'.symm hlt

theorem positions_count {text : List Char} (hsize : utf8Length text < UInt32.size) :
    PositionsCount text where
  counts := by
    intro offset
    obtain ⟨before, hbefore, hfloor, hposition⟩ := exists_isFloor text offset
    obtain ⟨hline, hcolumn⟩ := placeAfter_le before
    have hlt := Nat.lt_of_le_of_lt (utf8Length_mono hbefore) hsize
    refine ⟨before, hbefore, hfloor, ?_, ?_⟩
    · rw [hposition, toPosition, toNat_toUInt32 (Nat.lt_of_le_of_lt hline hlt), placeAfter_eq,
        count_bytesOf]
    · rw [hposition, toPosition, toNat_toUInt32 (Nat.lt_of_le_of_lt hcolumn hlt), placeAfter_eq]
  monotone := fun _ _ => positionAt_le hsize
  strict := fun _ _ h h' => h.positionAt_lt hsize h'
  injective := by
    intro offset h offset' h' heq
    rcases Nat.lt_trichotomy offset offset' with hlt | rfl | hgt
    · exact absurd (heq ▸ h.positionAt_lt hsize h' hlt) (Position.not_lt_self _)
    · rfl
    · exact absurd (heq ▸ h'.positionAt_lt hsize h hgt) (Position.not_lt_self _)

theorem positions_count_wide :
    let text := "é\n\n€😀\r\nx".toList
    utf8Length text < UInt32.size ∧ PositionsCount text := by
  intro text
  have hsize : utf8Length text < UInt32.size := by decide
  exact ⟨hsize, positions_count hsize⟩

end HtmlIds
