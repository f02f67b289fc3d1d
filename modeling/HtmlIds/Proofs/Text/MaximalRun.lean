import HtmlIds.Proofs.Text.Run
import Mathlib.Data.List.DropRight

namespace HtmlIds

variable {α : Type} {p : α → Bool} {list lead lead' run run' after after' : List α}

structure MaximalRun (p : α → Bool) (list lead run after : List α) : Prop where
  eq_append : list = lead ++ run ++ after
  holds : ∀ a ∈ run, p a = true
  left : ∀ a ∈ lead.getLast?, p a = false
  right : ∀ a ∈ after.head?, p a = false

theorem of_mem_head?_dropWhile {a : α} (h : a ∈ (list.dropWhile p).head?) : p a = false := by
  have hhead := List.head?_dropWhile_not p list
  rw [Option.mem_def.1 h] at hhead
  simpa using hhead

theorem rtakeWhile_append_of_pos (front : List α) (h : ∀ a ∈ run, p a = true) :
    (front ++ run).rtakeWhile p = front.rtakeWhile p ++ run := by
  have hreverse : ∀ a ∈ run.reverse, p a = true := fun a ha => h a (List.mem_reverse.1 ha)
  rw [List.rtakeWhile, List.reverse_append, List.takeWhile_append_of_pos hreverse,
    List.reverse_append, List.reverse_reverse]
  rfl

theorem rtakeWhile_eq_nil (h : ∀ a ∈ lead.getLast?, p a = false) : lead.rtakeWhile p = [] := by
  refine List.rtakeWhile_eq_nil_iff.2 fun hne => ?_
  rw [h _ (List.getLast_mem_getLast? hne)]
  exact Bool.false_ne_true

theorem takeWhile_append_of_head (hrun : ∀ a ∈ run, p a = true)
    (hafter : ∀ a ∈ after.head?, p a = false) : (run ++ after).takeWhile p = run := by
  rw [List.takeWhile_append_of_pos hrun]
  cases after with
  | nil => exact List.append_nil run
  | cons a rest =>
      rw [List.takeWhile_cons_of_neg (by simp [hafter a rfl])]
      exact List.append_nil run

theorem dropWhile_append_of_head (hrun : ∀ a ∈ run, p a = true)
    (hafter : ∀ a ∈ after.head?, p a = false) : (run ++ after).dropWhile p = after := by
  have hdrop := drop_run_length p (run ++ after)
  rw [takeWhile_append_of_head hrun hafter, List.drop_left] at hdrop
  exact hdrop.symm

theorem rtakeWhile_append_of_getLast (hlead : ∀ a ∈ lead.getLast?, p a = false)
    (hrun : ∀ a ∈ run, p a = true) : (lead ++ run).rtakeWhile p = run := by
  rw [rtakeWhile_append_of_pos lead hrun, rtakeWhile_eq_nil hlead, List.nil_append]

theorem rdropWhile_append_of_getLast (hlead : ∀ a ∈ lead.getLast?, p a = false)
    (hrun : ∀ a ∈ run, p a = true) : (lead ++ run).rdropWhile p = lead := by
  have hrest := List.rdropWhile_append_rtakeWhile (p := p) (l := lead ++ run)
  rw [rtakeWhile_append_of_getLast hlead hrun] at hrest
  exact List.append_cancel_right hrest

theorem MaximalRun.rtakeWhile_eq (h : MaximalRun p list lead run after) :
    (lead ++ run).rtakeWhile p = run :=
  rtakeWhile_append_of_getLast h.left h.holds

theorem MaximalRun.unique (h : MaximalRun p list lead run after)
    (h' : MaximalRun p list lead' run' after') (heq : lead ++ run = lead' ++ run') :
    lead = lead' ∧ run = run' := by
  have hrun : run = run' := by rw [← h.rtakeWhile_eq, ← h'.rtakeWhile_eq, heq]
  subst hrun
  exact ⟨List.append_cancel_right heq, rfl⟩

theorem maximalRun_append (front : List α) {part : List α} (hpart : ∀ a ∈ part, p a = true)
    (hafter : ∀ a ∈ after.head?, p a = false) :
    MaximalRun p (front ++ part ++ after) (front.rdropWhile p) (front.rtakeWhile p ++ part) after where
  eq_append := by rw [← List.append_assoc, List.rdropWhile_append_rtakeWhile]
  holds := List.forall_mem_append.2 ⟨fun _ ha => List.mem_rtakeWhile_imp ha, hpart⟩
  left := by
    intro a ha
    rw [List.rdropWhile, List.getLast?_reverse] at ha
    exact of_mem_head?_dropWhile ha
  right := hafter

end HtmlIds
