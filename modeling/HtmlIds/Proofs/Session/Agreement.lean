import HtmlIds.Editor.Completion
import HtmlIds.Proofs.Editor.MemberCache
import HtmlIds.Proofs.Session.Step

namespace HtmlIds

section Members

variable {cache cache' : MemberCache} {database : Database}

theorem MemberCache.Serves.memberCompletions (h : cache.Serves database) (index : Index)
    (before : List Char) : (memberCompletions index cache before).2.Serves database := by
  unfold HtmlIds.memberCompletions
  split
  · exact h
  · exact h.lookup _

theorem memberCompletions_congr (h : cache.Serves database) (h' : cache'.Serves database)
    (index : Index) (before : List Char) :
    (memberCompletions index cache before).1 = (memberCompletions index cache' before).1 := by
  unfold memberCompletions
  split
  · rfl
  · simp only [h.entries_lookup, h'.entries_lookup]

theorem MemberCache.Serves.completions (h : cache.Serves database) (index : Index) (text : String)
    (position : Position) : (completions index cache text position).2.Serves database := by
  unfold HtmlIds.completions
  split
  · exact h
  · exact h.memberCompletions index _

theorem completions_congr (h : cache.Serves database) (h' : cache'.Serves database) (index : Index)
    (text : String) (position : Position) :
    (completions index cache text position).1 = (completions index cache' text position).1 := by
  unfold completions
  split
  · rfl
  · simp only [memberCompletions_congr h h']

end Members

structure Host.Alike (host other : Host) : Prop where
  index : host.index = other.index
  duplicateIds : host.duplicateIds = other.duplicateIds
  members : ∃ database, host.members.Serves database ∧ other.members.Serves database

namespace Host.Alike

variable {host other : Host}

theorem symm (h : Alike host other) : Alike other host := by
  obtain ⟨database, hserves, hserves'⟩ := h.members
  exact ⟨h.index.symm, h.duplicateIds.symm, database, hserves', hserves⟩

theorem rebuild (h : Alike host other) (uri : Uri) (text : String) :
    Alike (host.rebuild uri text) (other.rebuild uri text) :=
  ⟨rfl, h.duplicateIds, h.members⟩

theorem diagnostics (h : Alike host other) : host.diagnostics = other.diagnostics := by
  rw [Host.diagnostics, Host.diagnostics, h.index, h.duplicateIds]

theorem completions_left (h : Alike host other) (text : String) (position : Position) :
    Alike (host.completions text position).2 other := by
  obtain ⟨database, hserves, hserves'⟩ := h.members
  exact ⟨h.index, h.duplicateIds, database, hserves.completions _ text position, hserves'⟩

theorem completions_eq (h : Alike host other) (text : String) (position : Position) :
    (host.completions text position).1 = (other.completions text position).1 := by
  obtain ⟨database, hserves, hserves'⟩ := h.members
  rw [Host.completions, Host.completions, h.index]
  exact completions_congr hserves hserves' _ text position

theorem hover?_eq (h : Alike host other) (text : String) (position : Position) :
    host.hover? text position = other.hover? text position := by
  rw [Host.hover?, Host.hover?, h.index]

theorem definition?_eq (h : Alike host other) (text : String) (position : Position) :
    host.definition? text position = other.definition? text position := by
  rw [Host.definition?, Host.definition?, h.index]

end Host.Alike

namespace Session

structure Agree (ignored : Uri → Prop) (session other : Session) : Prop where
  phase : session.phase = other.phase
  published : session.published = other.published
  host : session.host.Alike other.host
  documents : ∀ uri, ¬ ignored uri → session.documents.find? uri = other.documents.find? uri
  ineligible : ∀ uri, ignored uri → session.eligible? uri = none ∧ other.eligible? uri = none

variable {ignored : Uri → Prop} {session other : Session}

theorem agree_start (ignored : Uri → Prop) (database : Database) (rule : RuleSeverity) :
    Agree ignored (start database rule) (start database rule) where
  phase := rfl
  published := rfl
  host := ⟨rfl, rfl, database, MemberCache.serves_fresh database, MemberCache.serves_fresh database⟩
  documents := fun _ _ => rfl
  ineligible := fun _ _ => ⟨rfl, rfl⟩

theorem Agree.symm (h : Agree ignored session other) : Agree ignored other session where
  phase := h.phase.symm
  published := h.published.symm
  host := h.host.symm
  documents := fun uri huri => (h.documents uri huri).symm
  ineligible := fun uri huri => (h.ineligible uri huri).symm

theorem Agree.eligible? (h : Agree ignored session other) (uri : Uri) :
    session.eligible? uri = other.eligible? uri := by
  by_cases huri : ignored uri
  · obtain ⟨hnone, hnone'⟩ := h.ineligible uri huri
    rw [hnone, hnone']
  · rw [Session.eligible?, Session.eligible?, h.documents uri huri]

theorem Agree.queryable? (h : Agree ignored session other) (uri : Uri) :
    session.queryable? uri = other.queryable? uri := by
  rw [Session.queryable?, Session.queryable?, h.phase, h.eligible? uri]

theorem Agree.takeDiagnostics (h : Agree ignored session other) :
    session.takeDiagnostics.1 = other.takeDiagnostics.1 ∧
      Agree ignored session.takeDiagnostics.2 other.takeDiagnostics.2 := by
  unfold Session.takeDiagnostics
  rw [h.published, h.host.diagnostics]
  exact ⟨rfl, h.phase, rfl, h.host, h.documents, h.ineligible⟩

theorem Agree.rescan (h : Agree ignored session other) (uri : Uri) :
    (session.rescan uri).1 = (other.rescan uri).1 ∧
      Agree ignored (session.rescan uri).2 (other.rescan uri).2 := by
  unfold Session.rescan
  rw [h.phase, h.eligible? uri]
  split
  · exact ⟨rfl, h⟩
  · cases other.eligible? uri with
    | none => exact ⟨rfl, h⟩
    | some document =>
        have hscanned : Agree ignored (session.scanned uri document.text)
            (other.scanned uri document.text) :=
          ⟨rfl, h.published, h.host.rebuild uri document.text, h.documents, h.ineligible⟩
        obtain ⟨hupdate, hafter⟩ := hscanned.takeDiagnostics
        exact ⟨congrArg some hupdate, hafter⟩

theorem Agree.activate (h : Agree ignored session other) (focused : Option Uri) :
    (session.activate focused).1 = (other.activate focused).1 ∧
      Agree ignored (session.activate focused).2 (other.activate focused).2 := by
  unfold Session.activate
  rw [h.phase]
  split
  · exact ⟨rfl, h⟩
  · have hactive : Agree ignored { session with phase := .activeNoIndex }
        { other with phase := .activeNoIndex } :=
      ⟨rfl, h.published, h.host, h.documents, h.ineligible⟩
    cases focused with
    | none => exact ⟨rfl, hactive⟩
    | some uri => exact hactive.rescan uri

theorem isEligible_of_ne {language : String} (h : language ≠ "html") (version : Int) (text : String) :
    (Document.mk (Language.ofIdentifier? language) version text).isEligible = false := by
  simp [Document.isEligible, Language.ofIdentifier?, h]

theorem Agree.insert (h : Agree ignored session other) (uri : Uri) (document : Document)
    (hignored : ignored uri → document.isEligible = false) :
    Agree ignored { session with documents := session.documents.insert uri document }
      { other with documents := other.documents.insert uri document } := by
  -- the document is stored in both sessions; where it is ignored, it is one that is not scanned
  refine ⟨h.phase, h.published, h.host, fun target htarget => ?_, fun target htarget => ?_⟩
  · rw [OrderedMap.find?_insert, OrderedMap.find?_insert, h.documents target htarget]
  · rw [eligible?_insert, eligible?_insert]
    split
    · next heq =>
        have hinel := hignored (heq ▸ htarget)
        simp [hinel]
    · exact h.ineligible target htarget

theorem Agree.closed (h : Agree ignored session other) (uri : Uri) :
    Agree ignored (session.closed uri) (other.closed uri) := by
  refine ⟨h.phase, h.published, h.host, fun target htarget => ?_, fun target htarget => ?_⟩
  · rw [Session.closed, Session.closed, OrderedMap.find?_erase, OrderedMap.find?_erase,
      h.documents target htarget]
  · rw [Session.closed, Session.closed, eligible?_erase, eligible?_erase]
    split
    · exact ⟨rfl, rfl⟩
    · exact h.ineligible target htarget

theorem changed_of_late {uri : Uri} {version : Int} {text : String}
    (h : ∀ document, session.documents.find? uri = some document → version ≤ document.version) :
    session.changed uri version text = (none, session) := by
  unfold changed Documents.changed?
  cases hfind : session.documents.find? uri with
  | none => rfl
  | some document => simp [h document hfind]

theorem changed_of_newer {uri : Uri} {version : Int} {text : String} {document : Document}
    (hfind : session.documents.find? uri = some document) (h : ¬ version ≤ document.version) :
    session.changed uri version text =
      { session with documents :=
          session.documents.insert uri { document with version, text } : Session }.rescan uri := by
  simp [changed, Documents.changed?, hfind, h]

theorem Agree.changed_of_not_ignored (h : Agree ignored session other) {uri : Uri}
    (huri : ¬ ignored uri) (version : Int) (text : String) :
    (session.changed uri version text).1 = (other.changed uri version text).1 ∧
      Agree ignored (session.changed uri version text).2 (other.changed uri version text).2 := by
  have hfind := h.documents uri huri
  by_cases hlate : ∀ document, other.documents.find? uri = some document → version ≤ document.version
  · rw [changed_of_late hlate, changed_of_late (hfind ▸ hlate)]
    exact ⟨rfl, h⟩
  · simp only [not_forall] at hlate
    obtain ⟨document, hsome, hnewer⟩ := hlate
    rw [changed_of_newer hsome hnewer, changed_of_newer (hfind.trans hsome) hnewer]
    exact (h.insert uri { document with version, text } fun hnot => absurd hnot huri).rescan uri

structure Unseen (uri : Uri) (before after : Session) : Prop where
  phase : after.phase = before.phase
  published : after.published = before.published
  host : after.host = before.host
  documents : ∀ target, target ≠ uri → after.documents.find? target = before.documents.find? target
  ineligible : after.eligible? uri = none

theorem Unseen.refl {uri : Uri} (h : session.eligible? uri = none) : Unseen uri session session :=
  ⟨rfl, rfl, rfl, fun _ _ => rfl, h⟩

theorem Agree.unseen (h : Agree ignored session other) {uri : Uri} {after : Session}
    (huri : ignored uri) (hunseen : Unseen uri session after) : Agree ignored after other := by
  have hfind (target : Uri) (hne : target ≠ uri) :
      after.documents.find? target = session.documents.find? target := hunseen.documents target hne
  refine ⟨hunseen.phase.trans h.phase, hunseen.published.trans h.published,
    hunseen.host.symm ▸ h.host, fun target htarget => ?_, fun target htarget => ?_⟩
  · have hne : target ≠ uri := fun heq => htarget (heq ▸ huri)
    exact (hfind target hne).trans (h.documents target htarget)
  · obtain ⟨hnone, hnone'⟩ := h.ineligible target htarget
    refine ⟨?_, hnone'⟩
    by_cases heq : target = uri
    · exact heq ▸ hunseen.ineligible
    · rw [Session.eligible?, hfind target heq]
      exact hnone

theorem rescan_of_ineligible {uri : Uri} (h : session.eligible? uri = none) :
    session.rescan uri = (none, session) := by
  simp [rescan, h]

theorem unseen_insert (uri : Uri) {document : Document} (hinel : document.isEligible = false) :
    let stored := { session with documents := session.documents.insert uri document : Session }
    (stored.rescan uri).1 = none ∧ Unseen uri session (stored.rescan uri).2 := by
  intro stored
  have hnone : stored.eligible? uri = none := by
    rw [eligible?_insert, if_pos rfl]
    simp [hinel]
  rw [rescan_of_ineligible hnone]
  refine ⟨rfl, rfl, rfl, rfl, fun target htarget => ?_, hnone⟩
  exact (OrderedMap.find?_insert ..).trans (if_neg htarget)

theorem unseen_changed {uri : Uri} (h : session.eligible? uri = none) (version : Int)
    (text : String) :
    (session.changed uri version text).1 = none ∧
      Unseen uri session (session.changed uri version text).2 := by
  by_cases hlate : ∀ document, session.documents.find? uri = some document → version ≤ document.version
  · rw [changed_of_late hlate]
    exact ⟨rfl, .refl h⟩
  · simp only [not_forall] at hlate
    obtain ⟨document, hsome, hnewer⟩ := hlate
    let changed : Document := { document with version, text }
    have hinel : changed.isEligible = false := by
      have hnone : document.isEligible = false := by
        simpa [eligible?, hsome] using h
      exact hnone
    rw [changed_of_newer hsome hnewer]
    exact unseen_insert uri hinel

theorem Agree.changed (h : Agree ignored session other) (uri : Uri) (version : Int)
    (text : String) :
    (session.changed uri version text).1 = (other.changed uri version text).1 ∧
      Agree ignored (session.changed uri version text).2 (other.changed uri version text).2 := by
  by_cases huri : ignored uri
  · -- what is stored may differ here, and neither session scans it
    obtain ⟨hinel, hinel'⟩ := h.ineligible uri huri
    obtain ⟨hnone, hunseen⟩ := unseen_changed hinel version text
    obtain ⟨hnone', hunseen'⟩ := unseen_changed hinel' version text
    exact ⟨hnone.trans hnone'.symm, ((h.unseen huri hunseen).symm.unseen huri hunseen').symm⟩
  · exact h.changed_of_not_ignored huri version text

theorem Agree.completions (h : Agree ignored session other) (uri : Uri) (position : Position) :
    (session.completions uri position).1 = (other.completions uri position).1 ∧
      Agree ignored (session.completions uri position).2 other := by
  unfold Session.completions
  rw [h.queryable? uri]
  cases other.queryable? uri with
  | none => exact ⟨rfl, h⟩
  | some document =>
      exact ⟨h.host.completions_eq document.text position, h.phase, h.published,
        h.host.completions_left document.text position, h.documents, h.ineligible⟩

theorem Agree.hover? (h : Agree ignored session other) (uri : Uri) (position : Position) :
    session.hover? uri position = other.hover? uri position := by
  rw [Session.hover?, Session.hover?, h.queryable? uri]
  congr 1
  funext document
  exact h.host.hover?_eq document.text position

theorem Agree.definition? (h : Agree ignored session other) (uri : Uri) (position : Position) :
    session.definition? uri position = other.definition? uri position := by
  rw [Session.definition?, Session.definition?, h.queryable? uri]
  congr 1
  funext document
  exact h.host.definition?_eq document.text position

theorem Agree.step (h : Agree ignored session other) (event : Event)
    (hopened : ∀ uri version text, event = .opened uri "html" version text → ¬ ignored uri) :
    (session.step event).1 = (other.step event).1 ∧
      Agree ignored (session.step event).2 (other.step event).2 := by
  cases event with
  | activate focused => exact (h.activate focused).imp_left (congrArg Answer.update)
  | opened uri language version text =>
      have hlanguage : ignored uri → language ≠ "html" := fun huri heq =>
        hopened uri version text (by rw [heq]) huri
      have hstored := h.insert uri ⟨Language.ofIdentifier? language, version, text⟩ fun huri =>
        isEligible_of_ne (hlanguage huri) version text
      exact (hstored.rescan uri).imp_left (congrArg Answer.update)
  | changed uri version text => exact (h.changed uri version text).imp_left (congrArg Answer.update)
  | focused uri => exact (h.rescan uri).imp_left (congrArg Answer.update)
  | closed uri => exact ⟨rfl, h.closed uri⟩
  | completions uri position =>
      obtain ⟨hitems, hleft⟩ := h.completions uri position
      have hright := (hleft.symm.completions uri position).2
      exact ⟨congrArg Answer.completions hitems, hright.symm⟩
  | hover uri position => exact ⟨congrArg Answer.hover (h.hover? uri position), h⟩
  | definition uri position => exact ⟨congrArg Answer.definition (h.definition? uri position), h⟩

end Session

end HtmlIds
