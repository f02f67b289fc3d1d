import HtmlIds.Proofs.Session.Step
import HtmlIds.Proofs.Sorting
import Mathlib.Logic.Function.Basic

namespace HtmlIds

abbrev View := Uri → List Diagnostic

namespace View

def start : View := fun _ => []

def publish (view : View) (update : Update) : View :=
  update.foldl (fun view entry => Function.update view entry.1 entry.2) view

def receive (view : View) (answer : Session.Answer) : View :=
  match answer.update? with
  | none => view
  | some update => view.publish update

def ofAnswers (answers : List Session.Answer) : View :=
  answers.foldl receive start

theorem publish_of_not_mem {update : Update} {uri : Uri} (view : View)
    (h : ∀ entry ∈ update, entry.1 ≠ uri) : view.publish update uri = view uri := by
  induction update generalizing view with
  | nil => rfl
  | cons entry rest ih =>
      have hne : uri ≠ entry.1 := fun e => h entry List.mem_cons_self e.symm
      calc (view.publish (entry :: rest)) uri
          = publish (Function.update view entry.1 entry.2) rest uri := rfl
        _ = Function.update view entry.1 entry.2 uri :=
            ih _ fun other hmem => h other (List.mem_cons_of_mem entry hmem)
        _ = view uri := Function.update_of_ne hne _ _

theorem publish_of_mem {update : Update} {uri : Uri} {list : List Diagnostic} (view : View)
    (hasc : update.Pairwise fun a b => a.1 < b.1) (h : (uri, list) ∈ update) :
    view.publish update uri = list := by
  induction update generalizing view with
  | nil => cases h
  | cons entry rest ih =>
      obtain ⟨hentry, hrest⟩ := List.pairwise_cons.1 hasc
      rcases List.mem_cons.1 h with rfl | hmem
      · have hfresh : ∀ other ∈ rest, other.1 ≠ uri := fun other hother e =>
          String.lt_irrefl uri (e ▸ hentry other hother)
        calc (view.publish ((uri, list) :: rest)) uri
            = publish (Function.update view uri list) rest uri := rfl
          _ = Function.update view uri list uri := publish_of_not_mem _ hfresh
          _ = list := Function.update_self ..
      · exact ih _ hrest hmem

end View

theorem Index.ne_nil_of_find?_diagnostics {index : Index} {rule : RuleSeverity} {uri : Uri}
    {list : List Diagnostic} (h : (index.diagnostics rule).find? uri = some list) : list ≠ [] := by
  unfold diagnostics at h
  split at h
  · cases h
  · exact OrderedMap.ne_nil_of_find?_collect h

theorem Index.diagnostics_empty (rule : RuleSeverity) :
    Index.empty.diagnostics rule = .empty := by
  unfold diagnostics
  split <;> rfl

namespace Session

theorem mem_publication {published : List Uri} {current : OrderedMap (List Diagnostic)} {uri : Uri}
    {list : List Diagnostic} :
    (uri, list) ∈ publication published current ↔
      (uri ∈ published ∧ current.find? uri = none ∧ list = []) ∨ current.find? uri = some list := by
  simp only [publication, List.mem_mergeSort, List.mem_append, List.mem_map, List.mem_filter,
    Prod.mk.injEq, ← OrderedMap.find?_eq_some_iff, OrderedMap.contains, Bool.not_eq_true',
    Option.isSome_eq_false_iff, Option.isNone_iff_eq_none]
  constructor
  · rintro (⟨other, ⟨hmem, hnone⟩, rfl, rfl⟩ | hfind)
    · exact .inl ⟨hmem, hnone, rfl⟩
    · exact .inr hfind
  · rintro (⟨hmem, hnone, rfl⟩ | hfind)
    · exact .inl ⟨uri, ⟨hmem, hnone⟩, rfl, rfl⟩
    · exact .inr hfind

theorem publication_ascending {published : List Uri} (current : OrderedMap (List Diagnostic))
    (h : published.Nodup) : (publication published current).Pairwise fun a b => a.1 < b.1 := by
  -- sorting alone gives an order that is not strict, but no document is named twice
  let cleared := published.filter (!current.contains ·)
  let entries := cleared.map (fun uri => (uri, ([] : List Diagnostic))) ++ current.entries
  have hkeys : (entries.map Prod.fst).Nodup := by
    have hmap : entries.map Prod.fst = cleared ++ current.keys := by
      simp [entries, OrderedMap.keys, Function.comp_def]
    rw [hmap, List.nodup_append]
    refine ⟨h.filter _, current.keys_nodup, fun a ha b hb e => ?_⟩
    have hnot : current.contains a = false := by simpa [cleared] using (List.mem_filter.1 ha).2
    rw [e, OrderedMap.mem_keys_iff.1 hb] at hnot
    cases hnot
  exact pairwise_lt_mergeSort Prod.fst hkeys

structure Exact (session : Session) (view : View) : Prop where
  published : session.published = session.host.diagnostics.keys
  shown : ∀ uri, view uri = session.host.fileDiagnostics uri

theorem exact_start (database : Database) (rule : RuleSeverity) :
    Exact (start database rule) .start := by
  have hempty : (start database rule).host.diagnostics = .empty := Index.diagnostics_empty rule
  refine ⟨?_, fun uri => ?_⟩
  · rw [hempty]
    rfl
  · rw [Host.fileDiagnostics, hempty]
    rfl

theorem Quiet.diagnostics {before after : Session} (h : Quiet before after) :
    after.host.diagnostics = before.host.diagnostics := by
  rw [Host.diagnostics, Host.diagnostics, h.index, h.duplicateIds]

theorem Exact.quiet {before after : Session} {view : View} (h : Exact before view)
    (hquiet : Quiet before after) : Exact after view := by
  refine ⟨?_, fun uri => ?_⟩
  · rw [hquiet.published, hquiet.diagnostics, h.published]
  · rw [h.shown, Host.fileDiagnostics, Host.fileDiagnostics, hquiet.diagnostics]

theorem Exact.ascending {before after : Session} {view : View} {uri : Uri} {update : Update}
    (h : Exact before view) (hscan : Scan uri update before after) :
    update.Pairwise fun a b => a.1 < b.1 := by
  rw [hscan.update]
  exact publication_ascending _ (h.published ▸ before.host.diagnostics.keys_nodup)

theorem Exact.scan {before after : Session} {view : View} {uri : Uri} {update : Update}
    (h : Exact before view) (hscan : Scan uri update before after) :
    Exact after (view.publish update) := by
  refine ⟨hscan.published, fun other => ?_⟩
  have hasc := h.ascending hscan
  rw [Host.fileDiagnostics]
  cases hfind : after.host.diagnostics.find? other with
  | some list =>
      exact View.publish_of_mem view hasc (hscan.update ▸ mem_publication.2 (.inr hfind))
  | none =>
      by_cases hpub : other ∈ before.published
      · exact View.publish_of_mem view hasc
          (hscan.update ▸ mem_publication.2 (.inl ⟨hpub, hfind, rfl⟩))
      · -- no list is shown now, so there is nothing to clear
        have hshown : before.host.diagnostics.find? other = none := by
          rw [h.published, OrderedMap.mem_keys_iff, OrderedMap.contains] at hpub
          simpa using hpub
        have hfresh : ∀ entry ∈ update, entry.1 ≠ other := by
          rintro ⟨_, list⟩ hmem rfl
          rw [hscan.update, mem_publication] at hmem
          rcases hmem with ⟨hmem, -⟩ | hsome
          · exact hpub hmem
          · exact Option.some_ne_none list (hsome.symm.trans hfind)
        rw [View.publish_of_not_mem view hfresh, h.shown, Host.fileDiagnostics, hshown]

theorem Exact.clears {before after : Session} {view : View} {uri other : Uri} {update : Update}
    (h : Exact before view) (hscan : Scan uri update before after) (hmem : (other, []) ∈ update) :
    view other ≠ [] := by
  rw [hscan.update, mem_publication] at hmem
  rcases hmem with ⟨hpub, -⟩ | hsome
  · rw [h.published, OrderedMap.mem_keys_iff, OrderedMap.contains_iff] at hpub
    obtain ⟨list, hfind⟩ := hpub
    rw [h.shown, Host.fileDiagnostics, hfind]
    exact Index.ne_nil_of_find?_diagnostics hfind
  · exact absurd rfl (Index.ne_nil_of_find?_diagnostics hsome)

theorem Exact.step {session : Session} {view : View} (h : Exact session view) (event : Event) :
    Exact (session.step event).2 (view.receive (session.step event).1) := by
  unfold View.receive
  rcases step_cases session event with ⟨hnone, hquiet⟩ | ⟨uri, update, -, hupdate, hscan⟩
  · rw [hnone]
    exact h.quiet hquiet
  · rw [hupdate]
    exact h.scan hscan

theorem Exact.run {session : Session} {view : View} (h : Exact session view)
    (events : List Event) :
    Exact (session.run events).2 ((session.run events).1.foldl View.receive view) := by
  induction events generalizing session view with
  | nil => exact h
  | cons event events ih => exact ih (h.step event)

theorem publication_exact (database : Database) (rule : RuleSeverity) (events : List Event)
    (event : Event) :
    let session := ((start database rule).run events).2
    let view := View.ofAnswers ((start database rule).run events).1
    (∀ uri, view uri = session.host.fileDiagnostics uri) ∧
      ∀ update, (session.step event).1.update? = some update →
        (update.Pairwise fun a b => a.1 < b.1) ∧
        ∀ uri, (uri, []) ∈ update → view uri ≠ [] := by
  intro session view
  have h : Exact session view := (exact_start database rule).run events
  refine ⟨h.shown, fun update hupdate => ?_⟩
  rcases step_cases session event with ⟨hnone, -⟩ | ⟨uri, scanned, -, hsome, hscan⟩
  · cases hnone.symm.trans hupdate
  · obtain rfl : scanned = update := Option.some.inj (hsome.symm.trans hupdate)
    exact ⟨h.ascending hscan, fun _ hmem => h.clears hscan hmem⟩

end Session

end HtmlIds
