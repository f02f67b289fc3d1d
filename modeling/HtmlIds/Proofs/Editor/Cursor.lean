import HtmlIds.Editor.Cursor
import HtmlIds.Proofs.Text.Run

namespace HtmlIds

theorem isWordChar_of_mem_scanWords {line word : List Char} {offset skip : Nat} {span : Span}
    (h : (word, span) ∈ scanWords line offset skip) :
    word ≠ [] ∧ ∀ c ∈ word, isWordChar c = true := by
  induction line generalizing offset skip with
  | nil => cases skip <;> cases h
  | cons c rest ih =>
      cases skip with
      | succ skip => exact ih h
      | zero =>
          rw [scanWords] at h
          split at h
          · next hstart =>
              rcases List.mem_cons.1 h with heq | hmem
              · obtain ⟨rfl, -⟩ := Prod.mk.inj heq
                refine ⟨List.cons_ne_nil c _, List.forall_mem_cons.2 ⟨?_, ?_⟩⟩
                · exact (Bool.and_eq_true_iff.1 hstart).1
                · exact fun c' hc' => List.all_eq_true.1 List.all_takeWhile c' hc'
              · exact ih hmem
          · exact ih h

theorem isWordChar_of_wordAt? {line : List Char} {column : UInt32} {word : Word}
    (h : wordAt? line column = some word) :
    word.text.toList ≠ [] ∧ ∀ c ∈ word.text.toList, isWordChar c = true := by
  obtain ⟨⟨chars, span⟩, hfind, rfl⟩ := Option.map_eq_some_iff.1 h
  rw [String.toList_ofList]
  exact isWordChar_of_mem_scanWords (List.mem_of_find?_eq_some hfind)

theorem isMemberAccess_of_identifierBeforeDot? {before : List Char} {base : String}
    (h : identifierBeforeDot? before = some base) : isMemberAccess before = true := by
  unfold identifierBeforeDot? at h
  simp only [drop_run_length] at h
  split at h
  · next rest hrest =>
      have hdot : isBlank '.' = false := by decide
      rw [isMemberAccess, hrest, List.dropWhile_cons_of_neg (by simp [hdot])]
      rfl
  · cases h

end HtmlIds
