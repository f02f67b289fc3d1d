import HtmlIds.Proofs.Markup.ScriptBlocks

namespace HtmlIds

variable {text : List Char} {k p p' e e' s s' : Nat} {spans : List Span}

structure RegionsGrow (text more : String) : Prop where
  begins : scriptRegions text <+: scriptRegions (text ++ more)
  inside : ∀ offset, inScriptRegion text offset = true → inScriptRegion (text ++ more) offset = true
  outside : ∀ p e s, FoundBlock text.toList 0 p e s →
    ∀ offset < byteOffset text.toList (s + scriptCloser.length),
      inScriptRegion text offset = false → inScriptRegion (text ++ more) offset = false

theorem openerAt_iff_leads : OpenerAt text p e ↔ ∃ tag attributes,
    tag ++ attributes ++ ['>'] <+: text.drop p ∧ IsSpelling scriptOpener tag ∧ '>' ∉ attributes ∧
      e = p + (tag ++ attributes ++ ['>']).length := by
  have hend (tag attributes : List Char) : p + (tag ++ attributes).length + 1 =
      p + (tag ++ attributes ++ ['>']).length := by
    simp [Nat.add_assoc]
  constructor
  · rintro ⟨tag, attributes, rest, hdrop, htag, hattributes, rfl⟩
    exact ⟨tag, attributes, ⟨rest, by simp [hdrop]⟩, htag, hattributes, hend tag attributes⟩
  · rintro ⟨tag, attributes, ⟨rest, hrest⟩, htag, hattributes, rfl⟩
    exact ⟨tag, attributes, rest, by simp [← hrest], htag, hattributes, (hend tag attributes).symm⟩

theorem openerAt_append_iff (h : e ≤ text.length) (more : List Char) :
    OpenerAt (text ++ more) p e ↔ OpenerAt text p e := by
  rw [openerAt_iff_leads, openerAt_iff_leads]
  refine exists_congr fun tag => exists_congr fun attributes => and_congr_left ?_
  rintro ⟨-, -, rfl⟩
  exact prefix_drop_append_iff h more

theorem closerAt_append_iff (h : s + scriptCloser.length ≤ text.length) (more : List Char) :
    CloserAt (text ++ more) s ↔ CloserAt text s := by
  have hleads (text : List Char) : CloserAt text s ↔
      ∃ closing, closing <+: text.drop s ∧ IsSpelling scriptCloser closing := by
    constructor
    · rintro ⟨closing, rest, hdrop, hclosing⟩
      exact ⟨closing, ⟨rest, hdrop.symm⟩, hclosing⟩
    · rintro ⟨closing, ⟨rest, hrest⟩, hclosing⟩
      exact ⟨closing, rest, hrest.symm, hclosing⟩
  rw [hleads, hleads]
  refine exists_congr fun closing => and_congr_left fun hclosing => ?_
  exact prefix_drop_append_iff (hclosing.length_eq ▸ h) more

theorem FirstOpener.append (h : FirstOpener text k p e) (more : List Char) :
    FirstOpener (text ++ more) k p e := by
  have hopener := (openerAt_append_iff h.opener.le_length more).2 h.opener
  refine ⟨hopener, ⟨h.least.1.1, e, hopener⟩, ?_⟩
  rintro q ⟨hle, stop, hq⟩
  refine Nat.le_of_not_lt fun hlt => ?_
  have hstop : stop ≤ text.length :=
    Nat.le_trans (hq.mono hopener (Nat.le_of_lt hlt)) h.opener.le_length
  exact Nat.not_lt_of_le (h.least.2 ⟨hle, stop, (openerAt_append_iff hstop more).1 hq⟩) hlt

theorem FirstCloser.append (h : FirstCloser text e s) (more : List Char) :
    FirstCloser (text ++ more) e s := by
  have hlength := h.1.2.le_length
  refine ⟨⟨h.1.1, (closerAt_append_iff hlength more).2 h.1.2⟩, ?_⟩
  rintro q ⟨hle, hq⟩
  refine Nat.le_of_not_lt fun hlt => ?_
  exact Nat.not_lt_of_le (h.2 ⟨hle, (closerAt_append_iff (by omega) more).1 hq⟩) hlt

theorem FoundBlock.append (h : FoundBlock text k p e s) (more : List Char) :
    FoundBlock (text ++ more) k p e s := by
  induction h with
  | first hfirst hcloser => exact .first (hfirst.append more) (hcloser.append more)
  | later hfirst hcloser _ ih => exact .later (hfirst.append more) (hcloser.append more) ih

theorem FoundBlock.of_append {more : List Char} (h : FoundBlock text k p e s)
    (h' : FoundBlock (text ++ more) k p' e' s') (hlt : p' < s + scriptCloser.length) :
    FoundBlock text k p' e' s' := by
  induction h with
  | first hfirst hcloser =>
      rcases (foundBlock_iff (hfirst.append more) (hcloser.append more)).1 h' with
        ⟨rfl, rfl, rfl⟩ | hlater
      · exact .first hfirst hcloser
      · exact absurd hlt (Nat.not_lt_of_le hlater.spec.1)
  | later hfirst hcloser _ ih =>
      rcases (foundBlock_iff (hfirst.append more) (hcloser.append more)).1 h' with
        ⟨rfl, rfl, rfl⟩ | hlater
      · exact .first hfirst hcloser
      · exact .later hfirst hcloser (ih hlater hlt)

theorem FoundBlock.le_length (h : FoundBlock text k p e s) :
    e ≤ s ∧ s + scriptCloser.length ≤ text.length := by
  obtain ⟨-, -, hcloser⟩ := h.spec
  exact ⟨hcloser.1.1, hcloser.1.2.le_length⟩

theorem Scanned.append (h : Scanned text k spans) (more : List Char) :
    ∃ later, Scanned (text ++ more) k (spans ++ later) := by
  induction h with
  | unopened _ => exact ⟨_, scanned_scanScripts (text ++ more) _⟩
  | unclosed _ _ => exact ⟨_, scanned_scanScripts (text ++ more) _⟩
  | block hfirst hcloser _ ih =>
      obtain ⟨later, hlater⟩ := ih
      have hnext := Scanned.block (hfirst.append more) (hcloser.append more) hlater
      rw [byteOffset_append_of_le hfirst.opener.le_length,
        byteOffset_append_of_le (Nat.le_of_lt hcloser.lt_length)] at hnext
      exact ⟨later, hnext⟩

theorem regions_grow (text more : String) : RegionsGrow text more where
  begins := by
    obtain ⟨later, hlater⟩ := (scanned_scanScripts text.toList 0).append more.toList
    rw [← String.toList_append] at hlater
    exact ⟨later, hlater.unique (scanned_scanScripts (text ++ more).toList 0)⟩
  inside := by
    intro offset hinside
    obtain ⟨p, e, s, hfound, hstart, hstop⟩ := inScriptRegion_iff.1 hinside
    obtain ⟨hes, hlength⟩ := hfound.le_length
    refine inScriptRegion_iff.2 ⟨p, e, s, ?_⟩
    rw [String.toList_append, byteOffset_append_of_le (by omega), byteOffset_append_of_le (by omega)]
    exact ⟨hfound.append more.toList, hstart, hstop⟩
  outside := by
    intro p e s hfound offset hlt houtside
    rw [← Bool.not_eq_true] at houtside ⊢
    refine mt (fun hinside => ?_) houtside
    obtain ⟨p', e', s', hfound', hstart, hstop⟩ := inScriptRegion_iff.1 hinside
    rw [String.toList_append] at hfound' hstart hstop
    obtain ⟨-, hlength⟩ := hfound.le_length
    -- a block that opens behind this one has its content behind the offset
    have hbefore : p' < s + scriptCloser.length := by
      refine Nat.lt_of_not_le fun hle => ?_
      have hopener := hfound'.spec.2.1
      have hmono : byteOffset (text.toList ++ more.toList) (s + scriptCloser.length) ≤
          byteOffset (text.toList ++ more.toList) e' :=
        byteOffset_mono _ (Nat.le_trans hle (by have := hopener.lt; omega))
      rw [byteOffset_append_of_le hlength] at hmono
      omega
    have hold := hfound.of_append hfound' hbefore
    obtain ⟨hes, hlength'⟩ := hold.le_length
    rw [byteOffset_append_of_le (by omega)] at hstart hstop
    exact inScriptRegion_iff.2 ⟨p', e', s', hold, hstart, hstop⟩

end HtmlIds
