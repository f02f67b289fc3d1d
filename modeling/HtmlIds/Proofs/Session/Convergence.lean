import HtmlIds.Proofs.Session.Freshness
import HtmlIds.Proofs.Session.Publication
import Mathlib.Data.List.Induction

namespace HtmlIds

namespace Session

def Event.change? (uri : Uri) : Event → Option (Int × String)
  | .changed other version text => if other = uri then some (version, text) else none
  | .activate _ | .opened _ _ _ _ | .focused _ | .closed _ => none
  | .completions _ _ | .hover _ _ | .definition _ _ => none

def changesOf (uri : Uri) (events : List Event) : List (Int × String) :=
  events.filterMap (Event.change? uri)

def StaysOpen (uri : Uri) (events : List Event) : Prop :=
  ∀ event ∈ events, event ≠ .closed uri ∧
    ∀ language version text, event ≠ .opened uri language version text

end Session

structure Newest (first : Int × String) (changes : List (Int × String)) (kept : Int × String) :
    Prop where
  not_older : ∀ change ∈ first :: changes, change.1 ≤ kept.1
  source : kept = first ∨ kept ∈ changes ∧ first.1 < kept.1

theorem Newest.congr {first kept : Int × String} {changes changes' : List (Int × String)}
    (h : Newest first changes kept) (hmem : ∀ change, change ∈ changes ↔ change ∈ changes') :
    Newest first changes' kept := by
  refine ⟨fun change hchange => h.not_older change ?_, ?_⟩
  · rw [List.mem_cons, hmem]
    exact List.mem_cons.1 hchange
  · rw [← hmem]
    exact h.source

theorem Newest.unique {first kept kept' : Int × String} {changes : List (Int × String)}
    (h : Newest first changes kept) (h' : Newest first changes kept')
    (hdistinct : (changes.map Prod.fst).Nodup) : kept = kept' := by
  have hfirst : first.1 ≤ kept.1 := h.not_older first List.mem_cons_self
  have hfirst' : first.1 ≤ kept'.1 := h'.not_older first List.mem_cons_self
  rcases h.source with rfl | ⟨hmem, hlt⟩
  · rcases h'.source with rfl | ⟨hmem', hlt'⟩
    · rfl
    · have hle := h.not_older kept' (List.mem_cons_of_mem _ hmem')
      omega
  · have hle' := h'.not_older kept (List.mem_cons_of_mem _ hmem)
    rcases h'.source with rfl | ⟨hmem', hlt'⟩
    · omega
    · have hle := h.not_older kept' (List.mem_cons_of_mem _ hmem')
      exact List.inj_on_of_nodup_map hdistinct hmem hmem' (by omega)

def newer (kept change : Int × String) : Int × String :=
  if change.1 ≤ kept.1 then kept else change

theorem le_newer (kept change : Int × String) : kept.1 ≤ (newer kept change).1 := by
  unfold newer
  split
  · exact Int.le_refl _
  · next hnot => exact Int.le_of_lt (Int.not_le.1 hnot)

theorem Newest.newer {first kept : Int × String} {changes : List (Int × String)}
    (h : Newest first changes kept) (change : Int × String) :
    Newest first (changes ++ [change]) (newer kept change) := by
  have hfirst : first.1 ≤ kept.1 := h.not_older first List.mem_cons_self
  have hle := le_newer kept change
  constructor
  · intro other hother
    rw [← List.cons_append, List.mem_append, List.mem_singleton] at hother
    rcases hother with hother | rfl
    · exact Int.le_trans (h.not_older other hother) hle
    · unfold HtmlIds.newer
      split
      · next hold => exact hold
      · exact Int.le_refl _
  · unfold HtmlIds.newer
    split
    · exact h.source.imp_right fun ⟨hmem, hlt⟩ => ⟨List.mem_append_left _ hmem, hlt⟩
    · next hnot =>
        right
        exact ⟨List.mem_append_right _ List.mem_cons_self,
          Int.lt_of_le_of_lt hfirst (Int.not_le.1 hnot)⟩

theorem newest_foldl (first : Int × String) (changes : List (Int × String)) :
    Newest first changes (changes.foldl newer first) := by
  induction changes using List.reverseRecOn with
  | nil => exact ⟨by simp, .inl rfl⟩
  | append_singleton changes change ih =>
      rw [List.foldl_append]
      exact ih.newer change

namespace Session

def markupDocument (kept : Int × String) : Document :=
  ⟨some .html, kept.1, kept.2⟩

theorem find?_after {documents : Documents} {uri : Uri} {kept : Int × String} {event : Event}
    (h : documents.find? uri = some (markupDocument kept)) (hclosed : event ≠ .closed uri)
    (hopened : ∀ language version text, event ≠ .opened uri language version text) :
    (documents.after event).find? uri =
      some (markupDocument ((event.change? uri).elim kept (newer kept))) := by
  cases event with
  | opened other language version text =>
      have hne : uri ≠ other := fun heq => hopened language version text (by rw [heq])
      rw [Documents.after, Documents.opened, OrderedMap.find?_insert, if_neg hne]
      exact h
  | changed other version text =>
      rw [Documents.after, Documents.find?_changed]
      by_cases heq : uri = other
      · subst heq
        rw [if_pos rfl, h, Event.change?, if_pos rfl]
        simp only [Option.map_some, Option.elim_some, Document.changed, newer, markupDocument]
        split <;> rfl
      · rw [if_neg heq, Event.change?, if_neg fun e => heq e.symm]
        exact h
  | closed other =>
      have hne : uri ≠ other := fun heq => hclosed (by rw [heq])
      rw [Documents.after, OrderedMap.find?_erase, if_neg hne]
      exact h
  | activate focused => exact h
  | focused other => exact h
  | completions other position => exact h
  | hover other position => exact h
  | definition other position => exact h

theorem find?_run {session : Session} {uri : Uri} {kept : Int × String} {events : List Event}
    (h : session.documents.find? uri = some (markupDocument kept)) (hstays : StaysOpen uri events) :
    (session.run events).2.documents.find? uri =
      some (markupDocument ((changesOf uri events).foldl newer kept)) := by
  induction events generalizing session kept with
  | nil => exact h
  | cons event rest ih =>
      obtain ⟨hclosed, hopened⟩ := hstays event List.mem_cons_self
      have hrest : StaysOpen uri rest := fun other hmem =>
        hstays other (List.mem_cons_of_mem event hmem)
      have hstep : (session.step event).2.documents.find? uri =
          some (markupDocument ((event.change? uri).elim kept (newer kept))) := by
        rw [documents_step]
        exact find?_after h hclosed hopened
      rw [run, ih hstep hrest, changesOf, changesOf]
      cases hchange : event.change? uri with
      | none => rw [List.filterMap_cons_none hchange]; rfl
      | some change => rw [List.filterMap_cons_some hchange]; rfl

theorem find?_run_opened (session : Session) (history events : List Event) (uri : Uri)
    (version : Int) (text : String) (hstays : StaysOpen uri events) :
    (session.run (history ++ [.opened uri "html" version text] ++ events)).2.documents.find? uri =
      some (markupDocument ((changesOf uri events).foldl newer (version, text))) := by
  rw [run_append]
  refine find?_run ?_ hstays
  rw [run_concat, documents_step, Documents.after, Documents.opened, OrderedMap.find?_insert,
    if_pos rfl]
  rfl

structure Converged (database : Database) (rule : RuleSeverity) (uri : Uri)
    (before events : List Event) (kept : Int × String) : Prop where
  stored : ((start database rule).run (before ++ events)).2.documents.find? uri =
    some (markupDocument kept)
  index : ((start database rule).run (before ++ events ++ [.focused uri])).2.host.index =
    .build uri kept.2
  shown : View.ofAnswers ((start database rule).run (before ++ events ++ [.focused uri])).1 uri =
    (((Index.build uri kept.2).diagnostics rule).find? uri).getD []
  never_older : ∀ first second rest, events = first ++ second ++ rest →
    ∃ earlier later,
      ((start database rule).run (before ++ first)).2.documents.find? uri = some earlier ∧
      ((start database rule).run (before ++ (first ++ second))).2.documents.find? uri = some later ∧
      earlier.version ≤ later.version

theorem index_focused {session : Session} {uri : Uri} {kept : Int × String}
    (hactive : session.phase ≠ .inactive)
    (hstored : session.documents.find? uri = some (markupDocument kept)) :
    (session.step (.focused uri)).2.host.index = .build uri kept.2 := by
  have helig : session.eligible? uri = some (markupDocument kept) :=
    eligible?_eq_some_iff.2 ⟨hstored, rfl⟩
  obtain ⟨update, -, -, hindex⟩ := rescan_of_eligible hactive helig
  exact hindex

theorem ofAnswers_of_index {database : Database} {rule : RuleSeverity} {events : List Event}
    {uri : Uri} {text : String}
    (hindex : ((start database rule).run events).2.host.index = .build uri text) (other : Uri) :
    View.ofAnswers ((start database rule).run events).1 other =
      (((Index.build uri text).diagnostics rule).find? other).getD [] := by
  have hexact := (exact_start database rule).run events
  have hrule : ((start database rule).run events).2.host.duplicateIds = rule :=
    duplicateIds_run (start database rule) events
  have hshown := hexact.shown other
  rw [Host.fileDiagnostics, Host.diagnostics, hindex, hrule] at hshown
  exact hshown

theorem changes_converge (database : Database) (rule : RuleSeverity) (history : List Event)
    (uri : Uri) (version : Int) (text : String) (changes : List (Int × String))
    (hactive : ((start database rule).run history).2.phase ≠ .inactive)
    (hdistinct : (changes.map Prod.fst).Nodup) :
    ∃ kept, Newest (version, text) changes kept ∧
      ∀ events, (changesOf uri events).Perm changes → StaysOpen uri events →
        Converged database rule uri (history ++ [.opened uri "html" version text]) events kept := by
  -- one order is taken for all, and what any other leads to is newest as well
  have hkept := newest_foldl (version, text) changes
  refine ⟨_, hkept, ?_⟩
  intro events horder hstays
  have hstored := find?_run_opened (start database rule) history events uri version text hstays
  have harrived :
      Newest (version, text) changes ((changesOf uri events).foldl newer (version, text)) :=
    (newest_foldl (version, text) (changesOf uri events)).congr fun change => horder.mem_iff
  rw [harrived.unique hkept hdistinct] at hstored
  have hindex : ((start database rule).run
      (history ++ [.opened uri "html" version text] ++ events ++ [.focused uri])).2.host.index =
        .build uri (changes.foldl newer (version, text)).2 := by
    rw [run_concat]
    refine index_focused ?_ hstored
    rw [List.append_assoc, run_append]
    exact active_run hactive _
  constructor
  · exact hstored
  · exact hindex
  · exact ofAnswers_of_index hindex uri
  · rintro first second rest rfl
    have hfirst : StaysOpen uri first := fun event hmem =>
      hstays event (List.mem_append_left _ (List.mem_append_left _ hmem))
    have hsecond : StaysOpen uri (first ++ second) := fun event hmem =>
      hstays event (List.mem_append_left _ hmem)
    refine ⟨_, _, find?_run_opened _ _ _ _ _ _ hfirst, find?_run_opened _ _ _ _ _ _ hsecond, ?_⟩
    rw [changesOf, changesOf, List.filterMap_append, List.foldl_append]
    exact (newest_foldl _ _).not_older _ List.mem_cons_self

theorem changes_converge_reordered :
    let uri := "file:///a.html"
    let twice := "<i id='x'><b id='x'>"
    let changes : List (Int × String) := [(-1, ""), (3, "<p>"), (5, twice)]
    let events : List Event :=
      [.changed uri 5 twice, .opened "file:///b.html" "html" 1 "", .changed uri (-1) "",
        .focused "file:///b.html", .hover uri ⟨0, 0⟩, .changed uri 3 "<p>"]
    ((start .empty .error).run [.activate none]).2.phase ≠ .inactive ∧
      (changes.map Prod.fst).Nodup ∧ (changesOf uri events).Perm changes ∧ StaysOpen uri events ∧
      Converged .empty .error uri [.activate none, .opened uri "html" 2 "<b>"] events (5, twice) := by
  intro uri twice changes events
  have hactive : ((start .empty .error).run [.activate none]).2.phase ≠ .inactive := by decide
  have hdistinct : (changes.map Prod.fst).Nodup := by decide
  have horder : (changesOf uri events).Perm changes := by decide
  have hstays : StaysOpen uri events := by simp [StaysOpen, uri, events]
  obtain ⟨kept, hkept, hconverged⟩ :=
    changes_converge .empty .error [.activate none] uri 2 "<b>" changes hactive hdistinct
  have hnewest : Newest (2, "<b>") changes (5, twice) := by
    constructor <;> simp [changes]
  rw [hkept.unique hnewest hdistinct] at hconverged
  exact ⟨hactive, hdistinct, horder, hstays, hconverged events horder hstays⟩

end Session

end HtmlIds
