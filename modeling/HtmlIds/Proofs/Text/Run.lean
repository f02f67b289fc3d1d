import Mathlib.Data.List.Forall2

namespace HtmlIds

variable {α : Type} {p : α → Bool} {list : List α}

theorem exists_getElem?_of_lt_run {k : Nat} (h : k < (list.takeWhile p).length) :
    ∃ c, list[k]? = some c ∧ p c = true := by
  induction list generalizing k with
  | nil => cases h
  | cons first rest ih =>
      by_cases hp : p first = true
      · cases k with
        | zero => exact ⟨first, rfl, hp⟩
        | succ k =>
            rw [List.takeWhile_cons_of_pos hp] at h
            exact ih (Nat.lt_of_succ_lt_succ h)
      · rw [List.takeWhile_cons_of_neg hp] at h
        cases h

theorem run_length_le {k : Nat} {c : α} (h : list[k]? = some c) (hc : p c = false) :
    (list.takeWhile p).length ≤ k := by
  rcases Nat.lt_or_ge k (list.takeWhile p).length with hlt | hge
  · obtain ⟨c', hc', hp⟩ := exists_getElem?_of_lt_run hlt
    obtain rfl := Option.some.inj (h.symm.trans hc')
    exact absurd (hp.symm.trans hc) Bool.true_eq_false.mp
  · exact hge

theorem take_run_length (p : α → Bool) (list : List α) :
    list.take (list.takeWhile p).length = list.takeWhile p :=
  (List.prefix_iff_eq_take.1 (List.takeWhile_prefix p)).symm

theorem drop_run_length (p : α → Bool) (list : List α) :
    list.drop (list.takeWhile p).length = list.dropWhile p := by
  have hdrop : (list.takeWhile p ++ list.dropWhile p).drop (list.takeWhile p).length =
      list.dropWhile p := List.drop_left
  rwa [List.takeWhile_append_dropWhile] at hdrop

theorem takeWhile_append_cons {run : List α} {c : α} {rest : List α} (hrun : ∀ a ∈ run, p a = true)
    (hc : p c = false) : (run ++ c :: rest).takeWhile p = run := by
  rw [List.takeWhile_append_of_pos hrun, List.takeWhile_cons_of_neg (by simp [hc])]
  exact List.append_nil run

theorem exists_eq_run_append {list : List α} (h : (list.takeWhile p).length < list.length) :
    ∃ c rest, list = list.takeWhile p ++ c :: rest ∧ p c = false := by
  cases hdrop : list.dropWhile p with
  | nil =>
      have hall := List.takeWhile_append_dropWhile (p := p) (l := list)
      rw [hdrop, List.append_nil] at hall
      exact absurd (congrArg List.length hall) (Nat.ne_of_lt h)
  | cons c rest =>
      refine ⟨c, rest, ?_, ?_⟩
      · rw [← hdrop, List.takeWhile_append_dropWhile]
      · have hhead := List.head?_dropWhile_not p list
        simpa [hdrop] using hhead

theorem drop_eq_cons {i : Nat} {c : α} (h : list[i]? = some c) :
    list.drop i = c :: list.drop (i + 1) := by
  obtain ⟨hlt, rfl⟩ := List.getElem?_eq_some_iff.1 h
  exact List.drop_eq_getElem_cons hlt

theorem drop_of_drop_append {i : Nat} {front rest : List α} (h : list.drop i = front ++ rest) :
    list.drop (i + front.length) = rest := by
  rw [← List.drop_drop, h, List.drop_left]

theorem drop_of_drop_append_cons {i : Nat} {c : α} {front rest : List α}
    (h : list.drop i = front ++ c :: rest) : list.drop (i + front.length + 1) = rest := by
  rw [← List.tail_drop, drop_of_drop_append h, List.tail_cons]

theorem prefix_append_cases {part front back : List α} (h : part <+: front ++ back) :
    part <+: front ∨ ∃ rest, part = front ++ rest ∧ rest <+: back := by
  rcases List.prefix_or_prefix_of_prefix h (List.prefix_append front back) with hpart | ⟨rest, rfl⟩
  · exact .inl hpart
  · exact .inr ⟨rest, rfl, (List.prefix_append_right_inj front).1 h⟩

theorem prefix_drop_append_iff {front : List α} {k : Nat} (h : k + front.length ≤ list.length)
    (more : List α) : front <+: (list ++ more).drop k ↔ front <+: list.drop k := by
  have hdrop : (list ++ more).drop k = list.drop k ++ more :=
    List.drop_append_of_le_length (Nat.le_trans (Nat.le_add_right ..) h)
  rw [hdrop]
  constructor
  · intro hfront
    refine List.prefix_of_prefix_length_le hfront (List.prefix_append _ _) ?_
    rw [List.length_drop]
    omega
  · exact fun hfront => hfront.trans (List.prefix_append _ _)

theorem exists_of_mem_forall₂ {α β : Type} {rel : α → β → Prop} {as : List α} {bs : List β} {b : β}
    (h : List.Forall₂ rel as bs) (hb : b ∈ bs) : ∃ a ∈ as, rel a b := by
  induction h with
  | nil => cases hb
  | cons hab hall ih =>
      rcases List.mem_cons.1 hb with rfl | hmem
      · exact ⟨_, List.mem_cons_self, hab⟩
      · obtain ⟨a, ha, hrel⟩ := ih hmem
        exact ⟨a, List.mem_cons_of_mem _ ha, hrel⟩

structure FirstFrom (list : List α) (c : α) (i k : Nat) : Prop where
  le : i ≤ k
  found : list[k]? = some c
  first : ∀ j, i ≤ j → j < k → list[j]? ≠ some c

theorem FirstFrom.le_of_found {c : α} {i k j : Nat} (h : FirstFrom list c i k) (hle : i ≤ j)
    (hj : list[j]? = some c) : k ≤ j :=
  Nat.le_of_not_lt fun hlt => h.first j hle hlt hj

theorem FirstFrom.mem_drop {c : α} {i k : Nat} (h : FirstFrom list c i k) : c ∈ list.drop i := by
  obtain ⟨n, rfl⟩ := Nat.exists_eq_add_of_le h.le
  exact List.mem_of_getElem? (List.getElem?_drop.trans h.found)

theorem FirstFrom.unique {c : α} {i k k' : Nat} (h : FirstFrom list c i k)
    (h' : FirstFrom list c i k') : k = k' :=
  Nat.le_antisymm (h.le_of_found h'.le h'.found) (h'.le_of_found h.le h.found)

theorem getElem?_ne_of_lt_idxOf [BEq α] [LawfulBEq α] {c : α} {j : Nat} (h : j < list.idxOf c) :
    list[j]? ≠ some c := by
  induction list generalizing j with
  | nil => simp
  | cons first rest ih =>
      rw [List.idxOf_cons] at h
      by_cases hc : first = c
      · simp [hc] at h
      · cases j with
        | zero => simpa using hc
        | succ j =>
            rw [beq_eq_false_iff_ne.2 hc, cond_false] at h
            simpa using ih (Nat.lt_of_succ_lt_succ h)

theorem firstFrom_idxOf [BEq α] [LawfulBEq α] {c : α} {i : Nat} (h : c ∈ list.drop i) :
    FirstFrom list c i (i + (list.drop i).idxOf c) := by
  refine ⟨Nat.le_add_right .., ?_, fun j hle hlt => ?_⟩
  · rw [← List.getElem?_drop, List.getElem?_eq_getElem (List.idxOf_lt_length_of_mem h),
      List.getElem_idxOf]
  · obtain ⟨n, rfl⟩ := Nat.exists_eq_add_of_le hle
    rw [← List.getElem?_drop]
    exact getElem?_ne_of_lt_idxOf (Nat.lt_of_add_lt_add_left hlt)

theorem firstFrom_of_drop {c : α} {i : Nat} {front rest : List α}
    (h : list.drop i = front ++ c :: rest) (hfront : c ∉ front) :
    FirstFrom list c i (i + front.length) := by
  refine ⟨Nat.le_add_right .., ?_, fun j hle hlt => ?_⟩
  · rw [← List.getElem?_drop, h]
    simp
  · obtain ⟨n, rfl⟩ := Nat.exists_eq_add_of_le hle
    rw [← List.getElem?_drop, h, List.getElem?_append_left (by omega)]
    exact fun hget => hfront (List.mem_of_getElem? hget)

end HtmlIds
