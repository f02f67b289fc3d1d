import HtmlIds.Markup.ScriptRegion
import HtmlIds.Proofs.Text.Length

namespace HtmlIds

theorem stop_le_of_mem_scanScripts {text : List Char} {offset skip : Nat} {span : Span}
    (h : span ∈ scanScripts text offset skip) : span.stop ≤ offset + utf8Length text := by
  induction text generalizing offset skip with
  | nil => cases skip <;> cases h
  | cons c rest ih =>
      have hlater {skip : Nat} (hmem : span ∈ scanScripts rest (offset + c.utf8Size) skip) :
          span.stop ≤ offset + utf8Length (c :: rest) := by
        have hle := ih hmem
        rw [utf8Length_cons]
        omega
      cases skip with
      | succ skip => exact hlater h
      | zero =>
          rw [scanScripts] at h
          split at h
          · simp only at h
            split at h
            · cases h
            · next size hcloser =>
                rcases List.mem_cons.1 h with rfl | hmem
                · have htag := utf8Length_take_add_drop (rest.idxOf '>' + 1) rest
                  have hcontent := utf8Length_take_add_drop size (rest.drop (rest.idxOf '>' + 1))
                  rw [utf8Length_cons]
                  simp only
                  omega
                · exact hlater hmem
          · exact hlater h

theorem lt_of_inScriptRegion {text : String} {offset : Nat}
    (h : inScriptRegion text offset = true) : offset < utf8Length text.toList := by
  obtain ⟨span, hmem, hcontains⟩ := List.any_eq_true.1 h
  have hle := stop_le_of_mem_scanScripts hmem
  simp only [Span.contains, Bool.and_eq_true, decide_eq_true_eq] at hcontains
  omega

end HtmlIds
