import HtmlIds.Text.Pieces

namespace HtmlIds

variable {separator : Char} {text : List Char}

theorem pieces_ne_nil (separator : Char) (text : List Char) : pieces separator text ≠ [] := by
  cases text with
  | nil => exact List.cons_ne_nil _ _
  | cons c rest =>
      rw [pieces]
      split
      · exact List.cons_ne_nil _ _
      · split <;> exact List.cons_ne_nil _ _

theorem pieces_of_not_mem (h : separator ∉ text) : pieces separator text = [text] := by
  induction text with
  | nil => rfl
  | cons c rest ih =>
      have hc : c ≠ separator := fun heq => h (heq ▸ List.mem_cons_self)
      rw [pieces, if_neg hc, ih fun hmem => h (List.mem_cons_of_mem c hmem)]

theorem pieces_append_cons (separator : Char) (front back : List Char) :
    pieces separator (front ++ separator :: back) =
      pieces separator front ++ pieces separator back := by
  induction front with
  | nil => exact if_pos rfl
  | cons c rest ih =>
      rw [List.cons_append, pieces, pieces, ih]
      by_cases hc : c = separator
      · rw [if_pos hc, if_pos hc]
        rfl
      · rw [if_neg hc, if_neg hc]
        obtain ⟨piece, others, hrest⟩ := List.exists_cons_of_ne_nil (pieces_ne_nil separator rest)
        rw [hrest]
        rfl

theorem pieces_eq_cons {piece : List Char} {others : List (List Char)}
    (h : pieces separator text = piece :: others) :
    separator ∉ piece ∧ (text = piece ∧ others = [] ∨
      ∃ rest, text = piece ++ separator :: rest ∧ pieces separator rest = others) := by
  by_cases hmem : separator ∈ text
  · obtain ⟨front, back, rfl, hfront⟩ := List.eq_append_cons_of_mem hmem
    rw [pieces_append_cons, pieces_of_not_mem hfront] at h
    obtain ⟨rfl, rfl⟩ := List.cons.inj h
    exact ⟨hfront, .inr ⟨back, rfl, rfl⟩⟩
  · rw [pieces_of_not_mem hmem] at h
    obtain ⟨rfl, rfl⟩ := List.cons.inj h
    exact ⟨hmem, .inl ⟨rfl, rfl⟩⟩

theorem joinPieces_cons (piece : List Char) {rest : List (List Char)} (h : rest ≠ []) :
    joinPieces separator (piece :: rest) = piece ++ separator :: joinPieces separator rest := by
  cases rest with
  | nil => exact absurd rfl h
  | cons next others => rfl

theorem joinPieces_append {front back : List (List Char)} (hfront : front ≠ []) (hback : back ≠ []) :
    joinPieces separator (front ++ back) =
      joinPieces separator front ++ separator :: joinPieces separator back := by
  induction front with
  | nil => exact absurd rfl hfront
  | cons piece rest ih =>
      cases rest with
      | nil => exact joinPieces_cons piece hback
      | cons next others =>
          have hrest := List.cons_ne_nil next others
          rw [List.cons_append, joinPieces_cons piece (List.append_ne_nil_of_left_ne_nil hrest back),
            ih hrest, joinPieces_cons piece hrest, List.append_assoc, List.cons_append]

theorem joinPieces_leading (leading : List (List Char)) {rest : List (List Char)} (h : rest ≠ []) :
    joinPieces separator (leading ++ rest) =
      leading.flatMap (· ++ [separator]) ++ joinPieces separator rest := by
  induction leading with
  | nil => rfl
  | cons first leading ih =>
      rw [List.cons_append, joinPieces_cons first (List.append_ne_nil_of_right_ne_nil leading h), ih,
        List.flatMap_cons]
      simp

theorem length_le_joinPieces {piece : List Char} {texts : List (List Char)} (h : piece ∈ texts) :
    piece.length ≤ (joinPieces separator texts).length := by
  induction texts with
  | nil => cases h
  | cons text rest ih =>
      by_cases hnil : rest = []
      · subst hnil
        obtain rfl := List.mem_singleton.1 h
        exact Nat.le_refl _
      · rw [joinPieces_cons text hnil, List.length_append, List.length_cons]
        rcases List.mem_cons.1 h with rfl | hrest
        · omega
        · have := ih hrest
          omega

theorem joinPieces_pieces (separator : Char) (text : List Char) :
    joinPieces separator (pieces separator text) = text := by
  induction text with
  | nil => rfl
  | cons c rest ih =>
      have hne := pieces_ne_nil separator rest
      rw [pieces]
      split
      · next hc => rw [joinPieces_cons [] hne, ih, hc, List.nil_append]
      · obtain ⟨piece, others, hrest⟩ := List.exists_cons_of_ne_nil hne
        rw [hrest] at ih ⊢
        cases others with
        | nil => exact congrArg (c :: ·) ih
        | cons next others => exact congrArg (c :: ·) ih

theorem pieces_joinPieces {texts : List (List Char)} (hne : texts ≠ [])
    (h : ∀ text ∈ texts, separator ∉ text) : pieces separator (joinPieces separator texts) = texts := by
  induction texts with
  | nil => exact absurd rfl hne
  | cons text rest ih =>
      obtain ⟨htext, hrest⟩ := List.forall_mem_cons.1 h
      by_cases hnil : rest = []
      · subst hnil
        exact pieces_of_not_mem htext
      · rw [joinPieces_cons text hnil, pieces_append_cons, pieces_of_not_mem htext, ih hnil hrest]
        rfl

theorem pieces_flatMap_concat {texts : List (List Char)} (h : ∀ text ∈ texts, separator ∉ text) :
    pieces separator (texts.flatMap (· ++ [separator])) = texts ++ [[]] := by
  have hjoin : joinPieces separator (texts ++ [[]]) = texts.flatMap (· ++ [separator]) ++ [] :=
    joinPieces_leading texts (List.cons_ne_nil [] [])
  have hall : ∀ text ∈ texts ++ [[]], separator ∉ text := List.forall_mem_append.2 ⟨h, by simp⟩
  have hne := List.append_ne_nil_of_right_ne_nil texts (List.cons_ne_nil ([] : List Char) [])
  rw [← List.append_nil (texts.flatMap _), ← hjoin, pieces_joinPieces hne hall]

end HtmlIds
