import Mathlib.Data.List.Pairwise
import Mathlib.Data.List.Perm.Basic

namespace HtmlIds

variable {α : Type} {list list' : List α}

theorem pairwise_le_mergeSort (key : α → String) (list : List α) :
    (list.mergeSort fun a b => key a ≤ key b).Pairwise fun a b => key a ≤ key b := by
  have hsorted : (list.mergeSort fun a b => key a ≤ key b).Pairwise
      fun a b => decide (key a ≤ key b) = true := by
    refine List.pairwise_mergeSort (fun a b c hab hbc => ?_) (fun a b => ?_) list
    · exact decide_eq_true (String.le_trans (of_decide_eq_true hab) (of_decide_eq_true hbc))
    · simpa using String.le_total (key a) (key b)
  exact hsorted.imp of_decide_eq_true

theorem pairwise_lt_mergeSort (key : α → String) (h : (list.map key).Nodup) :
    (list.mergeSort fun a b => key a ≤ key b).Pairwise fun a b => key a < key b := by
  have hne := List.pairwise_map.1
    (((List.mergeSort_perm list fun a b => key a ≤ key b).map key).nodup_iff.2 h)
  exact ((pairwise_le_mergeSort key list).and hne).imp fun hab => Std.lt_of_le_of_ne hab.1 hab.2

theorem mergeSort_eq_of_perm (key : α → String) (h : list.Perm list')
    (heq : ∀ a ∈ list, ∀ b ∈ list, key a = key b → a = b) :
    (list.mergeSort fun a b => key a ≤ key b) = list'.mergeSort fun a b => key a ≤ key b := by
  refine List.Perm.eq_of_pairwise ?_ (pairwise_le_mergeSort key list)
    (pairwise_le_mergeSort key list') ?_
  · intro a b ha hb hab hba
    exact heq a (List.mem_mergeSort.1 ha) b (h.mem_iff.2 (List.mem_mergeSort.1 hb))
      (String.le_antisymm hab hba)
  · exact (List.mergeSort_perm _ _).trans (h.trans (List.mergeSort_perm _ _).symm)

end HtmlIds
