import HtmlIds.Proofs.Path
import Mathlib.Data.List.Infix

namespace HtmlIds.Path

inductive Climb : String → List String → Prop
  | top {path : String} : parent? path = none → Climb path [path]
  | up {path above : String} {chain : List String} :
      parent? path = some above → Climb above chain → Climb path (path :: chain)

structure IsRoot (path : String) : Prop where
  absolute : isAbsolute path = true
  nameless : ∀ piece ∈ pieces '/' path.toList, namesNothing piece = true

variable {path above : String} {chain chain' : List String}

theorem Climb.unique (h : Climb path chain) (h' : Climb path chain') : chain = chain' := by
  induction h generalizing chain' with
  | top hnone =>
      cases h' with
      | top _ => rfl
      | up habove _ =>
          rw [hnone] at habove
          cases habove
  | up habove _ ih =>
      cases h' with
      | top hnone =>
          rw [habove] at hnone
          cases hnone
      | up habove' hrest =>
          rw [habove] at habove'
          obtain rfl := Option.some.inj habove'
          rw [ih hrest]

theorem Climb.exists_top (h : Climb path chain) :
    ∃ lower top, chain = lower ++ [top] ∧ parent? top = none := by
  induction h with
  | top hnone => exact ⟨[], _, rfl, hnone⟩
  | up _ _ ih =>
      obtain ⟨lower, top, rfl, hnone⟩ := ih
      exact ⟨_ :: lower, top, rfl, hnone⟩

section Shorter

theorem outline_eq {first : List Char} {rest : List (List Char)}
    (h : pieces '/' path.toList = first :: rest) :
    outline path = (first, rest.reverse.dropWhile namesNothing) := by
  rw [outline, h]

theorem reverse_eq_of_dropWhile {rest before : List (List Char)} {last : List Char}
    (h : rest.reverse.dropWhile namesNothing = last :: before) :
    ∃ after, rest = before.reverse ++ last :: after ∧ namesNothing last = false := by
  have hwhole := List.takeWhile_append_dropWhile (p := namesNothing) (l := rest.reverse)
  rw [h] at hwhole
  refine ⟨(rest.reverse.takeWhile namesNothing).reverse, ?_, ?_⟩
  · have hreverse := congrArg List.reverse hwhole
    rw [List.reverse_reverse, List.reverse_append, List.reverse_cons, List.append_assoc] at hreverse
    exact hreverse.symm
  · have hhead := List.head?_dropWhile_not namesNothing rest.reverse
    rw [h] at hhead
    simpa using hhead

theorem parent?_cases (h : parent? path = some above) :
    (above = "" ∧ path ≠ "") ∨
      ∃ kept dropped, pieces '/' path.toList = kept ++ dropped ∧ kept ≠ [] ∧
        (∃ piece ∈ dropped, namesNothing piece = false) ∧
        (kept = [[]] ∧ above = "/" ∨ above = String.ofList (joinPieces '/' kept)) := by
  obtain ⟨first, rest, hpieces⟩ := List.exists_cons_of_ne_nil (pieces_ne_nil '/' path.toList)
  rw [parent?, outline_eq hpieces] at h
  cases hlater : rest.reverse.dropWhile namesNothing with
  | nil =>
      simp only [hlater] at h
      split at h
      · cases h
      · next hfirst =>
          refine .inl ⟨(Option.some.inj h).symm, ?_⟩
          rintro rfl
          exact hfirst (List.cons.inj hpieces).1.symm
  | cons last before =>
      simp only [hlater] at h
      obtain ⟨after, rfl, hlast⟩ := reverse_eq_of_dropWhile hlater
      have hbefore : before.reverse = (before.dropWhile namesNothing).reverse ++
          (before.takeWhile namesNothing).reverse := by
        rw [← List.reverse_append, List.takeWhile_append_dropWhile]
      refine .inr ⟨first :: (before.dropWhile namesNothing).reverse,
        (before.takeWhile namesNothing).reverse ++ last :: after, ?_, List.cons_ne_nil _ _,
        ⟨last, List.mem_append_right _ List.mem_cons_self, hlast⟩, ?_⟩
      · rw [hpieces, hbefore, List.append_assoc, List.cons_append]
      · split at h
        · next hroot =>
            have hroot' : first = [] ∧ before.dropWhile namesNothing = [] := by simpa using hroot
            rw [hroot'.1, hroot'.2]
            exact .inl ⟨rfl, (Option.some.inj h).symm⟩
        · exact .inr (Option.some.inj h).symm

theorem length_lt_of_parent? (h : parent? path = some above) : above.length < path.length := by
  rcases parent?_cases h with ⟨rfl, hne⟩ | ⟨kept, dropped, hpieces, hkept, ⟨piece, hmem, hnames⟩, habove⟩
  · exact Nat.pos_of_ne_zero (mt String.length_eq_zero_iff.1 hne)
  -- the path has the slash after what is kept, and what is dropped
  have hwhole : path.toList = joinPieces '/' kept ++ '/' :: joinPieces '/' dropped := by
    rw [← joinPieces_append hkept (List.ne_nil_of_mem hmem), ← hpieces, joinPieces_pieces]
  have hlength := congrArg List.length hwhole
  rw [List.length_append, List.length_cons, String.length_toList] at hlength
  have hpiece : 0 < piece.length := List.length_pos_iff.2 fun hnil => by
    subst hnil
    cases hnames
  have hdropped : piece.length ≤ (joinPieces '/' dropped).length := length_le_joinPieces hmem
  rcases habove with ⟨rfl, rfl⟩ | rfl
  · change 1 < path.length
    omega
  · rw [String.length_ofList]
    omega

theorem climb_upwards {count : Nat} (h : path.length ≤ count) : Climb path (upwards count path) := by
  induction count generalizing path with
  | zero =>
      obtain rfl := String.length_eq_zero_iff.1 (Nat.le_zero.1 h)
      exact .top rfl
  | succ count ih =>
      rw [upwards]
      cases habove : parent? path with
      | none => exact .top habove
      | some above =>
          have hshorter := length_lt_of_parent? habove
          exact .up habove (ih (by omega))

theorem climb_ancestors (path : String) : Climb path (ancestors path) :=
  climb_upwards (Nat.le_refl _)

theorem absolute_of_pieces {rest : List (List Char)} (h : pieces '/' path.toList = [] :: rest)
    (hne : path ≠ "") : isAbsolute path = true := by
  rw [isAbsolute]
  cases hpath : path.toList with
  | nil => exact absurd (String.toList_eq_nil_iff.1 hpath) hne
  | cons c others =>
      rw [hpath, pieces] at h
      split at h
      · next hslash => simp [hslash]
      · split at h <;> cases h

theorem eq_or_isRoot_of_parent?_eq_none (h : parent? path = none) : path = "" ∨ IsRoot path := by
  obtain ⟨first, rest, hpieces⟩ := List.exists_cons_of_ne_nil (pieces_ne_nil '/' path.toList)
  rw [parent?, outline_eq hpieces] at h
  cases hlater : rest.reverse.dropWhile namesNothing with
  | cons last before =>
      simp only [hlater] at h
      split at h <;> cases h
  | nil =>
      simp only [hlater] at h
      split at h
      · next hfirst =>
          have hnameless := List.dropWhile_eq_nil_iff.1 hlater
          subst hfirst
          by_cases hempty : path = ""
          · exact .inl hempty
          · refine .inr ⟨absolute_of_pieces hpieces hempty, ?_⟩
            rw [hpieces]
            refine List.forall_mem_cons.2 ⟨rfl, fun piece hmem => ?_⟩
            exact hnameless piece (List.mem_reverse.2 hmem)
      · cases h

end Shorter

section Descending

variable {base name : String} {names : List String}

theorem namesNothing_eq_of_segments (h : ∀ name ∈ names, IsSegment name) :
    ∀ piece ∈ names.map String.toList, namesNothing piece = false := by
  rw [List.forall_mem_map]
  exact fun name hname => (h name hname).namesNothing_eq

theorem pieces_descend (hne : names ≠ []) (h : ∀ name ∈ names, IsSegment name) :
    pieces '/' (descend "" names).toList = names.map String.toList ∧
      pieces '/' (descend "/" names).toList = [] :: names.map String.toList := by
  obtain ⟨name, rest, rfl⟩ := List.exists_cons_of_ne_nil hne
  obtain ⟨hname, hrest⟩ := List.forall_mem_cons.1 h
  constructor
  · rw [toList_descend "" hname hrest, gap, if_pos (.inl rfl)]
    exact pieces_segments hne h
  · rw [toList_descend "/" hname hrest, gap, if_pos (.inr rfl)]
    exact congrArg ([] :: ·) (pieces_segments hne h)

theorem eq_ofList_joinPieces {texts : List (List Char)} (h : pieces '/' path.toList = texts) :
    String.ofList (joinPieces '/' texts) = path := by
  rw [← h, joinPieces_pieces, String.ofList_toList]

theorem parent?_of_pieces {first last : List Char} {rest : List (List Char)}
    (h : pieces '/' path.toList = first :: (rest ++ [last]))
    (hnames : ∀ piece ∈ rest ++ [last], namesNothing piece = false) :
    parent? path = if first = [] ∧ rest = [] then some "/"
      else some (String.ofList (joinPieces '/' (first :: rest))) := by
  have hlast : namesNothing last = false := hnames last (by simp)
  have hlater : (rest ++ [last]).reverse.dropWhile namesNothing = last :: rest.reverse := by
    rw [List.reverse_append, List.reverse_singleton, List.singleton_append,
      List.dropWhile_cons_of_neg (by simp [hlast])]
  have hbefore : rest.reverse.dropWhile namesNothing = rest.reverse := by
    rw [List.dropWhile_eq_self_iff]
    intro hpos
    have hmem := List.mem_reverse.1 (List.getElem_mem hpos)
    rw [hnames _ (List.mem_append_left [last] hmem)]
    exact Bool.false_ne_true
  rw [parent?, outline_eq h, hlater]
  simp only [hbefore, List.reverse_eq_nil_iff, List.reverse_reverse, Bool.and_eq_true, decide_eq_true_eq]

theorem parent?_descend (hbase : base = "" ∨ base = "/")
    (h : ∀ segment ∈ names ++ [name], IsSegment segment) :
    parent? (descend base (names ++ [name])) = some (descend base names) := by
  have hnames : ∀ segment ∈ names, IsSegment segment := fun segment hmem =>
    h segment (List.mem_append_left _ hmem)
  have hname := h name (by simp)
  obtain ⟨hempty, hroot⟩ := pieces_descend (List.append_ne_nil_of_right_ne_nil names
    (List.cons_ne_nil name [])) h
  have hnothing := namesNothing_eq_of_segments h
  rw [List.map_append, List.map_singleton] at hempty hroot hnothing
  rcases hbase with rfl | rfl
  · cases names with
    | nil =>
        rw [parent?, outline_eq hempty]
        exact if_neg hname.toList_ne_nil
    | cons first rest =>
        have hfirst := (hnames first List.mem_cons_self).toList_ne_nil
        rw [parent?_of_pieces hempty fun piece hmem => hnothing piece (List.mem_cons_of_mem _ hmem),
          if_neg fun hnil => hfirst hnil.1]
        exact congrArg some (eq_ofList_joinPieces (pieces_descend (List.cons_ne_nil _ _) hnames).1)
  · rw [parent?_of_pieces hroot hnothing]
    by_cases hnil : names = []
    · subst hnil
      rfl
    · rw [if_neg fun hboth => hnil (List.map_eq_nil_iff.1 hboth.2)]
      exact congrArg some (eq_ofList_joinPieces (pieces_descend hnil hnames).2)

theorem climb_descend (hbase : base = "" ∨ base = "/") (h : ∀ segment ∈ names, IsSegment segment) :
    Climb (descend base names) ((names.inits.map (descend base)).reverse) := by
  induction names using List.reverseRecOn with
  | nil =>
      rcases hbase with rfl | rfl
      · exact .top rfl
      · exact .top rfl
  | append_singleton names name ih =>
      have hrest := ih fun segment hmem => h segment (List.mem_append_left _ hmem)
      have hinits : (names ++ [name]).inits = names.inits ++ [names ++ [name]] := by
        simp [List.inits_append]
      rw [hinits, List.map_append, List.reverse_append]
      exact .up (parent?_descend hbase h) hrest

end Descending

end HtmlIds.Path
