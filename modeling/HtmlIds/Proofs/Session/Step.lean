import HtmlIds.Proofs.OrderedMap
import HtmlIds.Session.Basic

namespace HtmlIds

def Session.Event.uri? : Session.Event → Option Uri
  | .activate target => target
  | .opened uri _ _ _ => some uri
  | .changed uri _ _ => some uri
  | .focused uri => some uri
  | .closed uri => some uri
  | .completions uri _ => some uri
  | .hover uri _ => some uri
  | .definition uri _ => some uri

def Session.Answer.update? : Session.Answer → Option Update
  | .update changes => changes
  | .completions _ => none
  | .hover _ => none
  | .definition _ => none

def Document.changed (document : Document) (version : Int) (text : String) : Document :=
  if version ≤ document.version then document else { document with version, text }

theorem Documents.find?_changed (documents : Documents) (uri other : Uri) (version : Int)
    (text : String) :
    ((documents.changed? uri version text).getD documents).find? other =
      if other = uri then (documents.find? uri).map fun document => document.changed version text
      else documents.find? other := by
  unfold Documents.changed?
  by_cases hother : other = uri
  · subst hother
    cases hfind : documents.find? other with
    | none => simp [hfind]
    | some document => by_cases hle : version ≤ document.version <;> simp [Document.changed, hle, hfind]
  · cases documents.find? uri with
    | none => simp [hother]
    | some document => by_cases hle : version ≤ document.version <;> simp [hle, hother]

def Documents.after (documents : Documents) : Session.Event → Documents
  | .opened uri language version text => documents.opened uri language version text
  | .changed uri version text => (documents.changed? uri version text).getD documents
  | .closed uri => documents.erase uri
  | .activate _ | .focused _ | .completions _ _ | .hover _ _ | .definition _ _ => documents

namespace Session

/-- No document becomes eligible, or gets another text, without being scanned. -/
structure Quiet (before after : Session) : Prop where
  index : after.host.index = before.host.index
  duplicateIds : after.host.duplicateIds = before.host.duplicateIds
  published : after.published = before.published
  phase : after.phase = before.phase ∨ before.phase = .inactive ∧ after.phase = .activeNoIndex
  eligible : after.phase ≠ .inactive →
    ∀ uri, after.eligible? uri = none ∨ after.eligible? uri = before.eligible? uri

structure Scan (uri : Uri) (update : Update) (before after : Session) : Prop where
  phase : after.phase = .activeWithIndex
  duplicateIds : after.host.duplicateIds = before.host.duplicateIds
  update : update = publication before.published after.host.diagnostics
  published : after.published = after.host.diagnostics.keys
  index : ∃ document, after.eligible? uri = some document ∧
    after.host.index = .build uri document.text

theorem Quiet.refl (session : Session) : Quiet session session where
  index := rfl
  duplicateIds := rfl
  published := rfl
  phase := .inl rfl
  eligible := fun _ _ => .inr rfl

theorem rescan_cases (session : Session) (uri : Uri) :
    (session.rescan uri = (none, session) ∧
      (session.phase ≠ .inactive → session.eligible? uri = none)) ∨
    ∃ update, (session.rescan uri).1 = some update ∧
      Scan uri update session (session.rescan uri).2 := by
  by_cases hphase : session.phase = .inactive
  · left
    simp [rescan, hphase]
  · cases helig : session.eligible? uri with
    | none =>
        left
        simp [rescan, hphase, helig]
    | some document =>
        right
        simp only [rescan, hphase, helig, if_false]
        exact ⟨_, rfl, rfl, rfl, rfl, rfl, document, helig, rfl⟩

theorem eligible?_insert (session : Session) (uri other : Uri) (document : Document) :
    { session with documents := session.documents.insert uri document : Session }.eligible? other =
      if other = uri then (some document).filter Document.isEligible
      else session.eligible? other := by
  simp only [eligible?, OrderedMap.find?_insert]
  split <;> rfl

theorem eligible?_erase (session : Session) (uri other : Uri) :
    { session with documents := session.documents.erase uri : Session }.eligible? other =
      if other = uri then none else session.eligible? other := by
  simp only [eligible?, OrderedMap.find?_erase]
  split <;> rfl

theorem rescan_insert_cases (session : Session) (uri : Uri) (document : Document) :
    let stored := { session with documents := session.documents.insert uri document : Session }
    ((stored.rescan uri).1 = none ∧ Quiet session (stored.rescan uri).2) ∨
    ∃ update, (stored.rescan uri).1 = some update ∧
      Scan uri update session (stored.rescan uri).2 := by
  intro stored
  rcases rescan_cases stored uri with ⟨heq, hnone⟩ | ⟨update, hupdate, hscan⟩
  · left
    rw [heq]
    refine ⟨rfl, rfl, rfl, rfl, .inl rfl, fun hphase other => ?_⟩
    by_cases hother : other = uri
    · exact .inl (hother ▸ hnone hphase)
    · exact .inr ((eligible?_insert session uri other document).trans (if_neg hother))
  · exact .inr ⟨update, hupdate, hscan.phase, hscan.duplicateIds, hscan.update, hscan.published,
      hscan.index⟩

theorem activate_cases (session : Session) (focused : Option Uri) :
    ((session.activate focused).1 = none ∧ Quiet session (session.activate focused).2) ∨
    ∃ uri update, focused = some uri ∧ (session.activate focused).1 = some update ∧
      Scan uri update session (session.activate focused).2 := by
  by_cases hphase : session.phase = .inactive
  · let active := { session with phase := .activeNoIndex : Session }
    have hquiet : Quiet session active :=
      ⟨rfl, rfl, rfl, .inr ⟨hphase, rfl⟩, fun _ _ => .inr rfl⟩
    cases focused with
    | none =>
        left
        simpa [activate, hphase] using hquiet
    | some uri =>
        have hactivate : session.activate (some uri) = active.rescan uri := by
          simp [activate, hphase, active]
        rw [hactivate]
        rcases rescan_cases active uri with ⟨heq, -⟩ | ⟨update, hupdate, hscan⟩
        · rw [heq]
          exact .inl ⟨rfl, hquiet⟩
        · exact .inr ⟨uri, update, rfl, hupdate, hscan.phase, hscan.duplicateIds, hscan.update,
            hscan.published, hscan.index⟩
  · left
    simpa [activate, hphase] using Quiet.refl session

theorem changed_cases (session : Session) (uri : Uri) (version : Int) (text : String) :
    ((session.changed uri version text).1 = none ∧
      Quiet session (session.changed uri version text).2) ∨
    ∃ update, (session.changed uri version text).1 = some update ∧
      Scan uri update session (session.changed uri version text).2 := by
  cases hfind : session.documents.find? uri with
  | none =>
      left
      simpa [changed, Documents.changed?, hfind] using Quiet.refl session
  | some document =>
      by_cases hversion : version ≤ document.version
      · left
        simpa [changed, Documents.changed?, hfind, hversion] using Quiet.refl session
      · simpa [changed, Documents.changed?, hfind, hversion] using
          rescan_insert_cases session uri { document with version, text }

theorem completions_quiet (session : Session) (uri : Uri) (position : Position) :
    Quiet session (session.completions uri position).2 := by
  unfold completions
  split
  · exact .refl session
  · exact ⟨rfl, rfl, rfl, .inl rfl, fun _ _ => .inr rfl⟩

theorem closed_quiet (session : Session) (uri : Uri) : Quiet session (session.closed uri) := by
  refine ⟨rfl, rfl, rfl, .inl rfl, fun _ other => ?_⟩
  unfold closed
  rw [eligible?_erase]
  split
  · exact .inl rfl
  · exact .inr rfl

theorem step_cases (session : Session) (event : Event) :
    ((session.step event).1.update? = none ∧ Quiet session (session.step event).2) ∨
    ∃ uri update, event.uri? = some uri ∧ (session.step event).1.update? = some update ∧
      Scan uri update session (session.step event).2 := by
  cases event with
  | activate focused => exact activate_cases session focused
  | opened uri language version text =>
      rcases rescan_insert_cases session uri ⟨Language.ofIdentifier? language, version, text⟩ with
        h | ⟨update, hupdate, hscan⟩
      · exact .inl h
      · exact .inr ⟨uri, update, rfl, hupdate, hscan⟩
  | changed uri version text =>
      rcases changed_cases session uri version text with h | ⟨update, hupdate, hscan⟩
      · exact .inl h
      · exact .inr ⟨uri, update, rfl, hupdate, hscan⟩
  | focused uri =>
      rcases rescan_cases session uri with ⟨heq, -⟩ | ⟨update, hupdate, hscan⟩
      · left
        simp only [step, heq]
        exact ⟨rfl, .refl session⟩
      · exact .inr ⟨uri, update, rfl, hupdate, hscan⟩
  | closed uri => exact .inl ⟨rfl, closed_quiet session uri⟩
  | completions uri position => exact .inl ⟨rfl, completions_quiet session uri position⟩
  | hover uri position => exact .inl ⟨rfl, .refl session⟩
  | definition uri position => exact .inl ⟨rfl, .refl session⟩

theorem documents_rescan (session : Session) (uri : Uri) :
    (session.rescan uri).2.documents = session.documents := by
  unfold rescan
  split
  · rfl
  · split <;> rfl

theorem rescan_of_eligible {session : Session} {uri : Uri} {document : Document}
    (hphase : session.phase ≠ .inactive) (helig : session.eligible? uri = some document) :
    ∃ update, (session.rescan uri).1 = some update ∧
      Scan uri update session (session.rescan uri).2 ∧
      (session.rescan uri).2.host.index = .build uri document.text := by
  rcases rescan_cases session uri with ⟨-, hnone⟩ | ⟨update, hupdate, hscan⟩
  · cases (hnone hphase).symm.trans helig
  · obtain ⟨scanned, hscanned, hindex⟩ := hscan.index
    rw [eligible?, documents_rescan] at hscanned
    cases helig.symm.trans hscanned
    exact ⟨update, hupdate, hscan, hindex⟩

theorem documents_activate (session : Session) (focused : Option Uri) :
    (session.activate focused).2.documents = session.documents := by
  unfold activate
  split
  · rfl
  · cases focused with
    | none => rfl
    | some uri => exact documents_rescan _ uri

theorem documents_changed (session : Session) (uri : Uri) (version : Int) (text : String) :
    (session.changed uri version text).2.documents =
      (session.documents.changed? uri version text).getD session.documents := by
  unfold changed
  cases session.documents.changed? uri version text with
  | none => rfl
  | some documents => exact documents_rescan _ uri

theorem documents_completions (session : Session) (uri : Uri) (position : Position) :
    (session.completions uri position).2.documents = session.documents := by
  unfold completions
  split <;> rfl

theorem documents_step (session : Session) (event : Event) :
    (session.step event).2.documents = session.documents.after event := by
  cases event with
  | activate focused => exact documents_activate session focused
  | opened uri language version text => exact documents_rescan _ uri
  | changed uri version text => exact documents_changed session uri version text
  | focused uri => exact documents_rescan session uri
  | closed uri => rfl
  | completions uri position => exact documents_completions session uri position
  | hover uri position => rfl
  | definition uri position => rfl

theorem duplicateIds_step (session : Session) (event : Event) :
    (session.step event).2.host.duplicateIds = session.host.duplicateIds := by
  rcases step_cases session event with ⟨-, hquiet⟩ | ⟨uri, update, -, -, hscan⟩
  · exact hquiet.duplicateIds
  · exact hscan.duplicateIds

theorem duplicateIds_run (session : Session) (events : List Event) :
    (session.run events).2.host.duplicateIds = session.host.duplicateIds := by
  induction events generalizing session with
  | nil => rfl
  | cons event events ih =>
      calc ((session.step event).2.run events).2.host.duplicateIds
          = (session.step event).2.host.duplicateIds := ih _
        _ = session.host.duplicateIds := duplicateIds_step session event

theorem active_step {session : Session} (h : session.phase ≠ .inactive) (event : Event) :
    (session.step event).2.phase ≠ .inactive := by
  rcases step_cases session event with ⟨-, hquiet⟩ | ⟨uri, update, -, -, hscan⟩
  · rcases hquiet.phase with hsame | ⟨hbefore, -⟩
    · rw [hsame]
      exact h
    · exact absurd hbefore h
  · rw [hscan.phase]
    nofun

theorem active_run {session : Session} (h : session.phase ≠ .inactive) (events : List Event) :
    (session.run events).2.phase ≠ .inactive := by
  induction events generalizing session with
  | nil => exact h
  | cons event events ih => exact ih (active_step h event)

theorem run_append (session : Session) (first second : List Event) :
    session.run (first ++ second) =
      ((session.run first).1 ++ ((session.run first).2.run second).1,
        ((session.run first).2.run second).2) := by
  induction first generalizing session with
  | nil => rfl
  | cons event rest ih => simp only [List.cons_append, run, ih]

theorem run_concat (session : Session) (events : List Event) (event : Event) :
    session.run (events ++ [event]) =
      ((session.run events).1 ++ [((session.run events).2.step event).1],
        ((session.run events).2.step event).2) := by
  rw [run_append]
  rfl

end Session

end HtmlIds
