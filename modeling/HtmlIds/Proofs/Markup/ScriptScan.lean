import HtmlIds.Proofs.Markup.ScriptRegion
import HtmlIds.Proofs.Markup.ScriptTag
import Mathlib.Order.Bounds.Basic
import Mathlib.Order.Nat

namespace HtmlIds

variable {text : List Char} {k p e s : Nat} {spans spans' : List Span}

structure FirstOpener (text : List Char) (k p e : Nat) : Prop where
  opener : OpenerAt text p e
  least : IsLeast {q | k ≤ q ∧ ∃ stop, OpenerAt text q stop} p

def FirstCloser (text : List Char) (e s : Nat) : Prop :=
  IsLeast {q | e ≤ q ∧ CloserAt text q} s

inductive Scanned (text : List Char) : Nat → List Span → Prop
  | unopened {k : Nat} (h : ∀ p e, k ≤ p → ¬OpenerAt text p e) : Scanned text k []
  | unclosed {k p e : Nat} (h : FirstOpener text k p e) (hno : ∀ s, e ≤ s → ¬CloserAt text s) :
      Scanned text k []
  | block {k p e s : Nat} {spans : List Span} (h : FirstOpener text k p e)
      (hcloser : FirstCloser text e s) (later : Scanned text (s + scriptCloser.length) spans) :
      Scanned text k (⟨byteOffset text e, byteOffset text s⟩ :: spans)

/-- Of all matches from `k` on, one that starts first, has the longest tag there, and then the
shortest content. -/
structure PreferredMatch (text : List Char) (k p e s : Nat) : Prop where
  matched : BlockMatch text p e s
  le : k ≤ p
  leftmost : ∀ p' e' s', k ≤ p' → BlockMatch text p' e' s' → p ≤ p'
  greedy : ∀ e' s', BlockMatch text p e' s' → e' ≤ e
  lazy : ∀ s', BlockMatch text p e s' → s ≤ s'

inductive Matched (text : List Char) : Nat → List Span → Prop
  | unmatched {k : Nat} (h : ∀ p e s, k ≤ p → ¬BlockMatch text p e s) : Matched text k []
  | next {k p e s : Nat} {spans : List Span} (h : PreferredMatch text k p e s)
      (later : Matched text (s + scriptCloser.length) spans) :
      Matched text k (⟨byteOffset text e, byteOffset text s⟩ :: spans)

structure ScriptRegionsExact (text : String) : Prop where
  scanned : ∀ spans, Scanned text.toList 0 spans ↔ spans = scriptRegions text
  matched : ∀ spans, Matched text.toList 0 spans ↔ spans = scriptRegions text
  enclosed : ∀ span ∈ scriptRegions text, ∃ p e s,
    span = ⟨byteOffset text.toList e, byteOffset text.toList s⟩ ∧ span.start ≤ span.stop ∧
    OpenerAt text.toList p e ∧ FirstCloser text.toList e s
  ordered : (scriptRegions text).Pairwise fun span span' => span.stop < span'.start
  unterminated : ∀ p e, OpenerAt text.toList p e → (∀ s, e ≤ s → ¬CloserAt text.toList s) →
    ∀ span ∈ scriptRegions text, span.stop < byteOffset text.toList e
  inside : ∀ offset, inScriptRegion text offset = true ↔
    ∃ span ∈ scriptRegions text, span.start ≤ offset ∧ offset < span.stop

theorem closerAfter?_spec (text : List Char) (e : Nat) :
    match closerAfter? (text.drop e) with
    | none => ∀ s, e ≤ s → ¬CloserAt text s
    | some size => FirstCloser text e (e + size) := by
  induction hlist : text.drop e generalizing e with
  | nil =>
      intro s hle hcloser
      have hlength := hcloser.le_length
      have hpos : 0 < scriptCloser.length := by decide
      have := List.drop_eq_nil_iff.1 hlist
      omega
  | cons c rest ih =>
      have hrest : text.drop (e + 1) = rest := by rw [← List.tail_drop, hlist, List.tail_cons]
      have hhere : CloserAt text e ↔ startsWithWord scriptCloser (c :: rest) = true :=
        hlist ▸ closerAt_iff
      have hlater := ih (e + 1) hrest
      rw [closerAfter?]
      by_cases hstarts : startsWithWord scriptCloser (c :: rest) = true
      · rw [if_pos hstarts]
        exact ⟨⟨Nat.le_refl e, hhere.2 hstarts⟩, fun q hq => hq.1⟩
      · rw [if_neg hstarts]
        have hne {q : Nat} (hle : e ≤ q) (hcloser : CloserAt text q) : e + 1 ≤ q := by
          rcases Nat.lt_or_eq_of_le hle with hlt | rfl
          · exact hlt
          · exact absurd (hhere.1 hcloser) hstarts
        cases hclose : closerAfter? rest with
        | none =>
            rw [hclose] at hlater
            exact fun s hle hcloser => hlater s (hne hle hcloser) hcloser
        | some size =>
            rw [hclose] at hlater
            have hfirst : FirstCloser text (e + 1) (e + 1 + size) := hlater
            rw [Nat.add_assoc, Nat.add_comm 1] at hfirst
            refine ⟨⟨Nat.le_add_right .., hfirst.1.2⟩, fun q hq => ?_⟩
            exact hfirst.2 ⟨hne hq.1 hq.2, hq.2⟩

theorem scanScripts_skip (list : List Char) (offset skip : Nat) :
    scanScripts list offset skip =
      scanScripts (list.drop skip) (offset + utf8Length (list.take skip)) 0 := by
  induction skip generalizing list offset with
  | zero => simp
  | succ skip ih =>
      cases list with
      | nil => simp [scanScripts]
      | cons c rest => simp [scanScripts, ih, Nat.add_assoc]

theorem scanScripts_other {c : Char} (hget : text[k]? = some c) (hno : ∀ e, ¬OpenerAt text k e) :
    scanScripts (text.drop k) (byteOffset text k) 0 =
      scanScripts (text.drop (k + 1)) (byteOffset text (k + 1)) 0 := by
  have hdrop := drop_eq_cons hget
  have hnot : ¬(startsWithWord scriptOpener (c :: text.drop (k + 1)) &&
      (text.drop (k + 1)).contains '>') = true := by
    rw [Bool.and_eq_true, List.contains_iff_mem]
    rintro ⟨hstarts, hmem⟩
    have hstop : '>' ∈ text.drop k := hdrop ▸ List.mem_cons_of_mem c hmem
    exact hno _ (openerAt_iff.2 ⟨hdrop ▸ hstarts, _, firstFrom_idxOf hstop, rfl⟩)
  rw [hdrop, scanScripts, byteOffset_succ hget]
  exact if_neg hnot

theorem scanScripts_opener (h : OpenerAt text k e) :
    scanScripts (text.drop k) (byteOffset text k) 0 =
      match closerAfter? (text.drop e) with
      | none => []
      | some size => ⟨byteOffset text e, byteOffset text (e + size)⟩ ::
          scanScripts (text.drop (e + size + scriptCloser.length))
            (byteOffset text (e + size + scriptCloser.length)) 0 := by
  have hlt := h.lt
  have hpos : 0 < scriptOpener.length := by decide
  obtain ⟨hstarts, g, hfirst, rfl⟩ := openerAt_iff.1 h
  obtain ⟨c, hget⟩ : ∃ c, text[k]? = some c := by
    have hg := (List.getElem?_eq_some_iff.1 hfirst.found).1
    exact ⟨_, List.getElem?_eq_getElem (by omega)⟩
  have hdrop := drop_eq_cons hget
  have hnext : FirstFrom text '>' (k + 1) g :=
    ⟨by omega, hfirst.found, fun j hle => hfirst.first j (by omega)⟩
  have hmem := hnext.mem_drop
  obtain rfl := hnext.unique (firstFrom_idxOf hmem)
  have hopens : (startsWithWord scriptOpener (c :: text.drop (k + 1)) &&
      (text.drop (k + 1)).contains '>') = true := by
    rw [Bool.and_eq_true, List.contains_iff_mem]
    exact ⟨hdrop ▸ hstarts, hmem⟩
  rw [hdrop, scanScripts]
  refine (if_pos hopens).trans ?_
  simp only [List.drop_drop, ← byteOffset_succ hget, ← byteOffset_add, ← Nat.add_assoc]
  cases closerAfter? (text.drop (k + 1 + (text.drop (k + 1)).idxOf '>' + 1)) with
  | none => rfl
  | some size =>
      simp only
      rw [scanScripts_skip, List.drop_drop, ← byteOffset_add]
      simp only [← Nat.add_assoc]

theorem FirstOpener.unique {p' e' : Nat} (h : FirstOpener text k p e)
    (h' : FirstOpener text k p' e') : p = p' ∧ e = e' := by
  obtain rfl := h.least.unique h'.least
  exact ⟨rfl, h.opener.unique h'.opener⟩

theorem FirstOpener.of_opener (h : OpenerAt text k e) : FirstOpener text k k e :=
  ⟨h, ⟨Nat.le_refl k, e, h⟩, fun _ hq => hq.1⟩

theorem exists_firstOpener {q stop : Nat} (hle : k ≤ q) (h : OpenerAt text q stop) :
    ∃ p e, FirstOpener text k p e := by
  classical
  have hleast := Nat.isLeast_find (p := fun q => k ≤ q ∧ ∃ stop, OpenerAt text q stop)
    ⟨q, hle, stop, h⟩
  obtain ⟨-, e, hopener⟩ := hleast.1
  exact ⟨_, e, hopener, hleast⟩

theorem Scanned.of_succ (hno : ∀ e, ¬OpenerAt text k e) (h : Scanned text (k + 1) spans) :
    Scanned text k spans := by
  have hne {q e : Nat} (hle : k ≤ q) (hopener : OpenerAt text q e) : k + 1 ≤ q := by
    rcases Nat.lt_or_eq_of_le hle with hlt | rfl
    · exact hlt
    · exact absurd hopener (hno e)
  have hfirst {p e : Nat} (h : FirstOpener text (k + 1) p e) : FirstOpener text k p e :=
    ⟨h.opener, ⟨Nat.le_of_succ_le h.least.1.1, e, h.opener⟩, fun q ⟨hle, stop, hopener⟩ =>
      h.least.2 ⟨hne hle hopener, stop, hopener⟩⟩
  cases h with
  | unopened h => exact .unopened fun p e hle hopener => h p e (hne hle hopener) hopener
  | unclosed h hno => exact .unclosed (hfirst h) hno
  | block h hcloser later => exact .block (hfirst h) hcloser later

theorem scanned_scanScripts (text : List Char) (k : Nat) :
    Scanned text k (scanScripts (text.drop k) (byteOffset text k) 0) := by
  -- behind a script the scan is at the end of the closer, so the induction is on what is left
  induction hleft : text.length - k using Nat.strong_induction_on generalizing k with
  | h left ih =>
      rcases Nat.lt_or_ge k text.length with hlt | hge
      · by_cases hopens : ∃ e, OpenerAt text k e
        · obtain ⟨e, hopener⟩ := hopens
          have hfirst := FirstOpener.of_opener hopener
          have hcloser := closerAfter?_spec text e
          rw [scanScripts_opener hopener]
          cases hclose : closerAfter? (text.drop e) with
          | none =>
              rw [hclose] at hcloser
              exact .unclosed hfirst hcloser
          | some size =>
              rw [hclose] at hcloser
              have hforward := hopener.lt
              exact .block hfirst hcloser (ih _ (by omega) _ rfl)
        · rw [not_exists] at hopens
          rw [scanScripts_other (List.getElem?_eq_getElem hlt) hopens]
          exact (ih _ (by omega) _ rfl).of_succ hopens
      · rw [List.drop_eq_nil_of_le hge]
        refine .unopened fun p e hle hopener => ?_
        have hforward := hopener.lt
        have hlength := hopener.le_length
        omega

theorem Scanned.unique (h : Scanned text k spans) (h' : Scanned text k spans') : spans = spans' := by
  induction h generalizing spans' with
  | unopened hnone =>
      cases h' with
      | unopened _ => rfl
      | unclosed _ _ => rfl
      | block hfirst _ _ => exact absurd hfirst.opener (hnone _ _ hfirst.least.1.1)
  | unclosed hfirst hno =>
      cases h' with
      | unopened _ => rfl
      | unclosed _ _ => rfl
      | block hfirst' hcloser _ =>
          obtain ⟨-, rfl⟩ := hfirst.unique hfirst'
          exact absurd hcloser.1.2 (hno _ hcloser.1.1)
  | block hfirst hcloser _ ih =>
      cases h' with
      | unopened hnone => exact absurd hfirst.opener (hnone _ _ hfirst.least.1.1)
      | unclosed hfirst' hno =>
          obtain ⟨-, rfl⟩ := hfirst.unique hfirst'
          exact absurd hcloser.1.2 (hno _ hcloser.1.1)
      | block hfirst' hcloser' later =>
          obtain ⟨-, rfl⟩ := hfirst.unique hfirst'
          obtain rfl := hcloser.unique hcloser'
          rw [ih later]

theorem FirstOpener.le_of_match {p' e' s' : Nat} (h : FirstOpener text k p e) (hle : k ≤ p')
    (hmatch : BlockMatch text p' e' s') : p ≤ p' ∧ e ≤ s' ∧ CloserAt text s' := by
  obtain ⟨hopener, hcontent, hcloser⟩ := blockMatch_iff.1 hmatch
  have hp := h.least.2 ⟨hle, e', hopener⟩
  exact ⟨hp, Nat.le_trans (h.opener.mono hopener hp) hcontent, hcloser⟩

theorem preferredMatch_iff :
    PreferredMatch text k p e s ↔ FirstOpener text k p e ∧ FirstCloser text e s := by
  constructor
  · intro h
    obtain ⟨hopener, hcontent, hcloser⟩ := blockMatch_iff.1 h.matched
    refine ⟨⟨hopener, ⟨h.le, e, hopener⟩, ?_⟩, ⟨hcontent, hcloser⟩, ?_⟩
    · rintro q ⟨hle, stop, hstop⟩
      rcases Nat.le_total p q with hpq | hqp
      · exact hpq
      · have hstople := hstop.mono hopener hqp
        exact h.leftmost q stop s hle
          (blockMatch_iff.2 ⟨hstop, Nat.le_trans hstople hcontent, hcloser⟩)
    · rintro q ⟨hle, hq⟩
      exact h.lazy q (blockMatch_iff.2 ⟨hopener, hle, hq⟩)
  · rintro ⟨hfirst, hcloser⟩
    refine ⟨blockMatch_iff.2 ⟨hfirst.opener, hcloser.1⟩, hfirst.least.1.1, ?_, ?_, ?_⟩
    · exact fun p' e' s' hle hmatch => (hfirst.le_of_match hle hmatch).1
    · exact fun e' s' hmatch => Nat.le_of_eq ((blockMatch_iff.1 hmatch).1.unique hfirst.opener)
    · exact fun s' hmatch => hcloser.2 (blockMatch_iff.1 hmatch).2

theorem matched_iff : Matched text k spans ↔ Scanned text k spans := by
  constructor
  · intro h
    induction h with
    | @unmatched k hnone =>
        by_cases hopens : ∃ p e, k ≤ p ∧ OpenerAt text p e
        · obtain ⟨q, stop, hle, hopener⟩ := hopens
          obtain ⟨p, e, hfirst⟩ := exists_firstOpener hle hopener
          exact .unclosed hfirst fun s hles hcloser =>
            hnone p e s hfirst.least.1.1 (blockMatch_iff.2 ⟨hfirst.opener, hles, hcloser⟩)
        · exact .unopened fun p e hle hopener => hopens ⟨p, e, hle, hopener⟩
    | next hpreferred _ ih =>
        obtain ⟨hfirst, hcloser⟩ := preferredMatch_iff.1 hpreferred
        exact .block hfirst hcloser ih
  · intro h
    induction h with
    | unopened hnone =>
        exact .unmatched fun p e s hle hmatch => hnone p e hle (blockMatch_iff.1 hmatch).1
    | unclosed hfirst hno =>
        refine .unmatched fun p e s hle hmatch => ?_
        obtain ⟨-, hes, hcloser⟩ := hfirst.le_of_match hle hmatch
        exact hno s hes hcloser
    | block hfirst hcloser _ ih => exact .next (preferredMatch_iff.2 ⟨hfirst, hcloser⟩) ih

theorem FirstCloser.lt_length (h : FirstCloser text e s) : s < text.length := by
  have hlength := h.1.2.le_length
  have hpos : 0 < scriptCloser.length := by decide
  omega

theorem Scanned.enclosed (h : Scanned text k spans) : ∀ span ∈ spans, ∃ p e s, k ≤ p ∧
    span = ⟨byteOffset text e, byteOffset text s⟩ ∧ OpenerAt text p e ∧ FirstCloser text e s := by
  induction h with
  | unopened _ => exact fun _ hmem => absurd hmem List.not_mem_nil
  | unclosed _ _ => exact fun _ hmem => absurd hmem List.not_mem_nil
  | @block k p e s spans hfirst hcloser _ ih =>
      have hkp := hfirst.least.1.1
      refine List.forall_mem_cons.2 ⟨⟨p, e, s, hkp, rfl, hfirst.opener, hcloser⟩, ?_⟩
      intro span hmem
      obtain ⟨p', e', s', hle, hspan, hopener, hcloser'⟩ := ih span hmem
      have hforward := hfirst.opener.lt
      have hes := hcloser.1.1
      exact ⟨p', e', s', by omega, hspan, hopener, hcloser'⟩

theorem Scanned.ordered (h : Scanned text k spans) :
    spans.Pairwise fun span span' => span.stop < span'.start := by
  induction h with
  | unopened _ => exact .nil
  | unclosed _ _ => exact .nil
  | block _ hcloser later ih =>
      refine .cons (fun span hmem => ?_) ih
      obtain ⟨p', e', s', hle, rfl, hopener, -⟩ := later.enclosed span hmem
      have hforward := hopener.lt
      exact byteOffset_lt (by omega) hcloser.lt_length

theorem scriptRegions_exact (text : String) : ScriptRegionsExact text := by
  have hscanned : Scanned text.toList 0 (scriptRegions text) := scanned_scanScripts text.toList 0
  refine ⟨fun spans => ⟨fun h => h.unique hscanned, fun h => h ▸ hscanned⟩, fun spans => ?_, ?_,
    hscanned.ordered, ?_, ?_⟩
  · rw [matched_iff]
    exact ⟨fun h => h.unique hscanned, fun h => h ▸ hscanned⟩
  · intro span hmem
    obtain ⟨p, e, s, -, rfl, hopener, hcloser⟩ := hscanned.enclosed span hmem
    exact ⟨p, e, s, rfl, byteOffset_mono _ hcloser.1.1, hopener, hcloser⟩
  · intro p e hopener hno span hmem
    obtain ⟨p', e', s', -, rfl, -, hcloser⟩ := hscanned.enclosed span hmem
    have hlt : s' < e := Nat.lt_of_not_le fun hle => hno s' hle hcloser.1.2
    exact byteOffset_lt hlt hcloser.lt_length
  · intro offset
    simp only [inScriptRegion, List.any_eq_true, Span.contains, Bool.and_eq_true,
      decide_eq_true_eq]

end HtmlIds
