import HtmlIds.Proofs.Markup.ScriptScan

namespace HtmlIds

variable {text : List Char} {k p p' e e' s s' : Nat} {spans : List Span} {span : Span}

inductive FoundBlock (text : List Char) : Nat → Nat → Nat → Nat → Prop
  | first {k p e s : Nat} (h : FirstOpener text k p e) (hcloser : FirstCloser text e s) :
      FoundBlock text k p e s
  | later {k p e s p' e' s' : Nat} (h : FirstOpener text k p e) (hcloser : FirstCloser text e s)
      (hfound : FoundBlock text (s + scriptCloser.length) p' e' s') : FoundBlock text k p' e' s'

def endsTagName (c : Char) : Bool :=
  isBlank c || c == '/' || c == '>'

def NamedScript (text : List Char) (p : Nat) : Prop :=
  ∃ c, text[p + scriptOpener.length]? = some c ∧ endsTagName c = true

structure ScriptElement (text : List Char) (p e s : Nat) : Prop where
  opener : OpenerAt text p e
  named : NamedScript text p
  closer : FirstCloser text e s

structure RegionsOpened (text : String) : Prop where
  found : ∀ span, span ∈ scriptRegions text ↔ ∃ p e s, FoundBlock text.toList 0 p e s ∧
    span = ⟨byteOffset text.toList e, byteOffset text.toList s⟩
  separate : ∀ p e s p' e' s', FoundBlock text.toList 0 p e s → FoundBlock text.toList 0 p' e' s' →
    p < p' → s + scriptCloser.length ≤ p'
  named_iff : (∀ p e s, FoundBlock text.toList 0 p e s → ScriptElement text.toList p e s) ↔
    ∀ p e s, OpenerAt text.toList p e → ¬NamedScript text.toList p →
      e ≤ s → CloserAt text.toList s → ∃ p' e' s', FoundBlock text.toList 0 p' e' s' ∧
        ScriptElement text.toList p' e' s' ∧ p' < p ∧ p < s' + scriptCloser.length
  outside : ∀ offset, inScriptRegion text offset = true →
    (∀ p e s, ScriptElement text.toList p e s → byteOffset text.toList p ≤ offset →
      byteOffset text.toList (s + scriptCloser.length) ≤ offset) →
    ∃ p e s, FoundBlock text.toList 0 p e s ∧ ¬NamedScript text.toList p ∧
      byteOffset text.toList e ≤ offset ∧ offset < byteOffset text.toList s

theorem FoundBlock.exists_first (h : FoundBlock text k p e s) :
    ∃ p' e' s', FirstOpener text k p' e' ∧ FirstCloser text e' s' := by
  cases h with
  | first h hcloser => exact ⟨_, _, _, h, hcloser⟩
  | later h hcloser _ => exact ⟨_, _, _, h, hcloser⟩

theorem foundBlock_iff (h : FirstOpener text k p e) (hcloser : FirstCloser text e s) :
    FoundBlock text k p' e' s' ↔ (p' = p ∧ e' = e ∧ s' = s) ∨
      FoundBlock text (s + scriptCloser.length) p' e' s' := by
  constructor
  · intro hfound
    cases hfound with
    | first h' hcloser' =>
        obtain ⟨rfl, rfl⟩ := h.unique h'
        exact .inl ⟨rfl, rfl, hcloser'.unique hcloser⟩
    | later h' hcloser' hlater =>
        obtain ⟨rfl, rfl⟩ := h.unique h'
        obtain rfl := hcloser.unique hcloser'
        exact .inr hlater
  · rintro (⟨rfl, rfl, rfl⟩ | hlater)
    · exact .first h hcloser
    · exact .later h hcloser hlater

theorem FoundBlock.spec (h : FoundBlock text k p e s) :
    k ≤ p ∧ OpenerAt text p e ∧ FirstCloser text e s := by
  induction h with
  | first h hcloser => exact ⟨h.least.1.1, h.opener, hcloser⟩
  | later h hcloser _ ih =>
      obtain ⟨hle, hopener, hcloser'⟩ := ih
      have hkp := h.least.1.1
      have hforward := h.opener.lt
      have hes := hcloser.1.1
      exact ⟨by omega, hopener, hcloser'⟩

theorem FoundBlock.separate (h : FoundBlock text k p e s) (h' : FoundBlock text k p' e' s')
    (hlt : p < p') : s + scriptCloser.length ≤ p' := by
  induction h with
  | first hfirst hcloser =>
      rcases (foundBlock_iff hfirst hcloser).1 h' with ⟨rfl, -⟩ | hlater
      · exact absurd hlt (Nat.lt_irrefl _)
      · exact hlater.spec.1
  | later hfirst hcloser hfound ih =>
      rcases (foundBlock_iff hfirst hcloser).1 h' with ⟨rfl, -⟩ | hlater
      · have hle := hfound.spec.1
        have hforward := hfirst.opener.lt
        have hes := hcloser.1.1
        omega
      · exact ih hlater hlt

theorem exists_firstCloser (hle : e ≤ s) (h : CloserAt text s) : ∃ s', FirstCloser text e s' := by
  classical
  exact ⟨_, Nat.isLeast_find (p := fun q => e ≤ q ∧ CloserAt text q) ⟨s, hle, h⟩⟩

theorem exists_foundBlock (hle : k ≤ p) (h : OpenerAt text p e) (hes : e ≤ s)
    (hcloser : CloserAt text s) :
    ∃ p' e' s', FoundBlock text k p' e' s' ∧ p' ≤ p ∧ p < s' + scriptCloser.length := by
  -- the first block opens no later; if it ends before `p`, the scan behind it still has `p` ahead
  induction hleft : text.length - k using Nat.strong_induction_on generalizing k with
  | h left ih =>
      obtain ⟨p₁, e₁, hfirst⟩ := exists_firstOpener hle h
      have hp₁ : p₁ ≤ p := hfirst.least.2 ⟨hle, e, h⟩
      obtain ⟨s₁, hs₁⟩ := exists_firstCloser (Nat.le_trans (hfirst.opener.mono h hp₁) hes) hcloser
      rcases Nat.lt_or_ge p (s₁ + scriptCloser.length) with hlt | hge
      · exact ⟨p₁, e₁, s₁, .first hfirst hs₁, hp₁, hlt⟩
      · have hkp := hfirst.least.1.1
        have hforward := hfirst.opener.lt
        have hcontent := hs₁.1.1
        have hlength := hs₁.lt_length
        obtain ⟨p', e', s', hfound, hbefore, hafter⟩ := ih _ (by omega) hge rfl
        exact ⟨p', e', s', .later hfirst hs₁ hfound, hbefore, hafter⟩

theorem Scanned.mem_iff (h : Scanned text k spans) : span ∈ spans ↔
    ∃ p e s, FoundBlock text k p e s ∧ span = ⟨byteOffset text e, byteOffset text s⟩ := by
  induction h with
  | unopened hnone =>
      refine iff_of_false List.not_mem_nil ?_
      rintro ⟨p, e, s, hfound, -⟩
      obtain ⟨hle, hopener, -⟩ := hfound.spec
      exact hnone p e hle hopener
  | unclosed hfirst hno =>
      refine iff_of_false List.not_mem_nil ?_
      rintro ⟨p, e, s, hfound, -⟩
      obtain ⟨p', e', s', hfirst', hcloser⟩ := hfound.exists_first
      obtain ⟨-, rfl⟩ := hfirst.unique hfirst'
      exact hno s' hcloser.1.1 hcloser.1.2
  | block hfirst hcloser _ ih =>
      rw [List.mem_cons, ih]
      constructor
      · rintro (rfl | ⟨p, e, s, hfound, rfl⟩)
        · exact ⟨_, _, _, .first hfirst hcloser, rfl⟩
        · exact ⟨p, e, s, .later hfirst hcloser hfound, rfl⟩
      · rintro ⟨p, e, s, hfound, rfl⟩
        rcases (foundBlock_iff hfirst hcloser).1 hfound with ⟨-, rfl, rfl⟩ | hlater
        · exact .inl rfl
        · exact .inr ⟨p, e, s, hlater, rfl⟩

theorem mem_scriptRegions_iff {text : String} : span ∈ scriptRegions text ↔
    ∃ p e s, FoundBlock text.toList 0 p e s ∧
      span = ⟨byteOffset text.toList e, byteOffset text.toList s⟩ :=
  (scanned_scanScripts text.toList 0).mem_iff

theorem inScriptRegion_iff {text : String} {offset : Nat} : inScriptRegion text offset = true ↔
    ∃ p e s, FoundBlock text.toList 0 p e s ∧
      byteOffset text.toList e ≤ offset ∧ offset < byteOffset text.toList s := by
  simp only [inScriptRegion, List.any_eq_true, Span.contains, Bool.and_eq_true, decide_eq_true_eq]
  constructor
  · rintro ⟨span, hmem, hcontains⟩
    obtain ⟨p, e, s, hfound, rfl⟩ := mem_scriptRegions_iff.1 hmem
    exact ⟨p, e, s, hfound, hcontains⟩
  · rintro ⟨p, e, s, hfound, hcontains⟩
    exact ⟨_, mem_scriptRegions_iff.2 ⟨p, e, s, hfound, rfl⟩, hcontains⟩

theorem regions_opened (text : String) : RegionsOpened text where
  found := fun _ => mem_scriptRegions_iff
  separate := fun _ _ _ _ _ _ h h' => h.separate h'
  named_iff := by
    constructor
    · intro hall p e s hopener hnot hle hcloser
      obtain ⟨p', e', s', hfound, hbefore, hafter⟩ :=
        exists_foundBlock (Nat.zero_le p) hopener hle hcloser
      have helement := hall p' e' s' hfound
      refine ⟨p', e', s', hfound, helement, Nat.lt_of_le_of_ne hbefore ?_, hafter⟩
      rintro rfl
      exact hnot helement.named
    · intro hsheltered p e s hfound
      obtain ⟨-, hopener, hcloser⟩ := hfound.spec
      refine ⟨hopener, Classical.not_not.1 fun hnot => ?_, hcloser⟩
      obtain ⟨p', e', s', hfound', -, hbefore, hafter⟩ :=
        hsheltered p e s hopener hnot hcloser.1.1 hcloser.1.2
      exact Nat.not_lt_of_le (hfound'.separate hfound hbefore) hafter
  outside := by
    intro offset hinside houtside
    obtain ⟨p, e, s, hfound, hstart, hstop⟩ := inScriptRegion_iff.1 hinside
    obtain ⟨-, hopener, hcloser⟩ := hfound.spec
    refine ⟨p, e, s, hfound, fun hnamed => ?_, hstart, hstop⟩
    have hle : byteOffset text.toList p ≤ byteOffset text.toList e :=
      byteOffset_mono _ (Nat.le_trans (Nat.le_add_right ..) (Nat.le_of_lt hopener.lt))
    have hend : byteOffset text.toList s ≤ byteOffset text.toList (s + scriptCloser.length) :=
      byteOffset_mono _ (Nat.le_add_right ..)
    have hafter := houtside p e s ⟨hopener, hnamed, hcloser⟩ (Nat.le_trans hle hstart)
    exact Nat.not_lt_of_le (Nat.le_trans hend hafter) hstop

theorem lookalike_opens_region :
    let source := "<scripty>hello</scripty><script>x</script>"
    FoundBlock source.toList 0 0 9 33 ∧ ¬NamedScript source.toList 0 ∧
      scriptRegions source = [⟨9, 33⟩] ∧ inScriptRegion source 9 = true ∧
      ∀ p e s, ScriptElement source.toList p e s → 9 < byteOffset source.toList p := by
  intro source
  have hopeners : ∀ p < 24, startsWithWord scriptOpener (source.toList.drop p) = true → p = 0 := by
    decide
  have hnot : ¬NamedScript source.toList 0 := by
    rintro ⟨c, hc, hends⟩
    have hy : source.toList[0 + scriptOpener.length]? = some 'y' := by decide
    obtain rfl := Option.some.inj (hy.symm.trans hc)
    exact absurd hends (by decide)
  have hregions : scriptRegions source = [⟨9, 33⟩] := by decide
  refine ⟨?_, hnot, hregions, by decide, fun p e s h => ?_⟩
  · have hdrop : source.toList.drop 0 =
        "<scripty".toList ++ '>' :: "hello</scripty><script>x</script>".toList := by decide
    have hopener : OpenerAt source.toList 0 9 :=
      openerAt_iff.2 ⟨by decide, 8, firstFrom_of_drop hdrop (by decide), rfl⟩
    have hcloser := closerAfter?_spec source.toList 9
    rw [show closerAfter? (source.toList.drop 9) = some 24 by decide] at hcloser
    exact .first (.of_opener hopener) hcloser
  · have hge : 24 ≤ p := by
      refine Nat.le_of_not_lt fun hlt => ?_
      obtain rfl := hopeners p hlt (openerAt_iff.1 h.opener).1
      exact hnot h.named
    calc 9 < byteOffset source.toList 24 := by decide
      _ ≤ byteOffset source.toList p := byteOffset_mono _ hge

end HtmlIds
