import HtmlIds.Text.Pieces
import Mathlib.Data.List.Infix

namespace HtmlIds

variable {pattern : List Char}

theorem findText_eq_none_iff {text : List Char} :
    findText pattern text = none ↔ ¬pattern <:+: text := by
  induction text with
  | nil => simp [findText]
  | cons c rest ih =>
      rw [findText, List.infix_cons_iff, ← List.isPrefixOf_iff_prefix]
      split
      · next hstart => simp [hstart]
      · next hstart => simp [hstart, ih]

def Unbordered (pattern : List Char) : Prop :=
  ∀ n < pattern.length, 0 < n → ¬pattern.take n <:+ pattern

instance (pattern : List Char) : Decidable (Unbordered pattern) :=
  inferInstanceAs (Decidable (∀ n < pattern.length, 0 < n → ¬pattern.take n <:+ pattern))

theorem Unbordered.not_prefix (h : Unbordered pattern) {front : List Char} (hne : front ≠ [])
    (hfront : ¬pattern <+: front) (back : List Char) : ¬pattern <+: front ++ (pattern ++ back) := by
  -- an occurrence before the one that was put in would share a part with it
  intro hprefix
  rcases Nat.lt_or_ge front.length pattern.length with hlt | hge
  · obtain ⟨shared, hshared⟩ :=
      List.prefix_of_prefix_length_le (List.prefix_append front _) hprefix (Nat.le_of_lt hlt)
    have hlength := congrArg List.length hshared
    have hpos := List.length_pos_iff.2 hne
    rw [List.length_append] at hlength
    have hstart : shared <+: pattern ++ back :=
      (List.prefix_append_right_inj front).1 (hshared.symm ▸ hprefix)
    have hwithin := List.prefix_of_prefix_length_le hstart (List.prefix_append pattern back) (by omega)
    refine h shared.length (by omega) (by omega) ?_
    rw [← List.prefix_iff_eq_take.1 hwithin]
    exact ⟨front, hshared⟩
  · exact hfront (List.prefix_of_prefix_length_le hprefix (List.prefix_append front _) hge)

theorem findText_insert (h : Unbordered pattern) {front : List Char} (hfront : ¬pattern <:+: front)
    (back : List Char) : findText pattern (front ++ (pattern ++ back)) = some front.length := by
  induction front with
  | nil =>
      obtain ⟨c, rest, rfl⟩ : ∃ c rest, pattern = c :: rest :=
        List.exists_cons_of_ne_nil fun hnil => hfront (hnil ▸ List.nil_infix)
      rw [List.nil_append, List.cons_append, findText, ← List.cons_append,
        if_pos (List.isPrefixOf_iff_prefix.2 (List.prefix_append _ back))]
      rfl
  | cons c front ih =>
      have hstart : ¬pattern <+: c :: front := fun hprefix => hfront hprefix.isInfix
      have hrest : ¬pattern <:+: front := fun hinfix => hfront (List.infix_cons hinfix)
      have hnot := h.not_prefix (List.cons_ne_nil c front) hstart back
      rw [List.cons_append] at hnot ⊢
      rw [findText, if_neg (mt List.isPrefixOf_iff_prefix.1 hnot), ih hrest]
      rfl

end HtmlIds
