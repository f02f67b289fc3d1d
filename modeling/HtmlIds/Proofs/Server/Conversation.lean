import HtmlIds.Proofs.Editor.DuplicateIds
import HtmlIds.Proofs.Server.Params
import HtmlIds.Proofs.Session.Agreement
import HtmlIds.Proofs.Session.Publication
import HtmlIds.Server.Basic

namespace HtmlIds.Server

inductive Tells : String → Json → Session.Event → Prop
  | opened {params uri language version text} :
      Params.opened params = some (.opened uri language version text) →
      Tells "textDocument/didOpen" params (.opened uri language version text)
  | changed {params uri version texts text} :
      Params.changes params = some ((uri, version), texts ++ [text]) →
      Tells "textDocument/didChange" params (.changed uri version text)
  | closed {params uri} : Params.aboutDocument params = some uri →
      Tells "textDocument/didClose" params (.closed uri)
  | focused {params uri} : Params.aboutDocument params = some uri →
      Tells "htmlId/didChangeActiveDocument" params (.focused uri)

inductive Asks : String → (Json → Option (Uri × Position)) → (Uri → Position → Session.Event) → Prop
  | completion : Asks "textDocument/completion" Params.completion .completions
  | hover : Asks "textDocument/hover" Params.hover .hover
  | definition : Asks "textDocument/definition" Params.definition .definition

inductive Responds (session : Session) (id : RequestId) (method : String) (params : Json) :
    Sent → Prop
  | unknown : (∀ read ask, ¬ Asks method read ask) →
      Responds session id method params (.failure id (.unknownMethod method))
  | malformed {read ask} : Asks method read ask → read params = none →
      Responds session id method params (.failure id .invalidParams)
  | answered {read ask uri position} : Asks method read ask → read params = some (uri, position) →
      Responds session id method params
        (.result id (encodeAnswer (session.step (ask uri position)).1))

def announcement (entry : Uri × List Diagnostic) : Sent :=
  .notification "textDocument/publishDiagnostics"
    (Json.ofMembers
      [("uri", .string entry.1), ("diagnostics", .array (entry.2.map Encoding.diagnostic))])

inductive Transcript : Session → List Message → List (List Sent) → Session → Prop
  | nil {session} : Transcript session [] [] session
  | request {session id method params response messages sent after} :
      Responds session id method params response → Transcript session messages sent after →
      Transcript session (.request id method params :: messages) ([response] :: sent) after
  | response {session id messages sent after} : Transcript session messages sent after →
      Transcript session (.response id :: messages) ([] :: sent) after
  | told {session method params event update next messages sent after} :
      Tells method params event → session.step event = (.update update, next) →
      (update.getD []).Pairwise (fun a b => a.1 < b.1) → Transcript next messages sent after →
      Transcript session (.notification method params :: messages)
        ((update.getD []).map announcement :: sent) after
  | untold {session method params messages sent after} : (∀ event, ¬ Tells method params event) →
      Transcript session messages sent after →
      Transcript session (.notification method params :: messages) ([] :: sent) after

inductive Idle : Message → Prop
  | request {id method params} : method ≠ "shutdown" → Idle (.request id method params)
  | response {id} : Idle (.response id)
  | notification {method params} : (∀ event, ¬ Tells method params event) →
      Idle (.notification method params)

def Message.requestId? : Message → Option RequestId
  | .request id _ _ => some id
  | .notification _ _ => none
  | .response _ => none

def Sent.responseId? : Sent → Option RequestId
  | .result id _ => some id
  | .failure id _ => some id
  | .notification _ _ => none

structure SameState (session other : Session) : Prop where
  documents : session.documents = other.documents
  index : session.host.index = other.host.index
  phase : session.phase = other.phase
  published : session.published = other.published

theorem event?_eq_some_iff {method : String} {params : Json} {event : Session.Event} :
    event? method params = some event ↔ Tells method params event := by
  constructor
  · intro h
    unfold event? at h
    split at h
    · obtain ⟨uri, language, version, text, rfl, -⟩ := Params.opened_eq_some h
      exact .opened h
    · obtain ⟨⟨⟨uri, version⟩, texts⟩, hchanges, hlast⟩ := Option.bind_eq_some_iff.1 h
      obtain ⟨text, htext, rfl⟩ := Option.map_eq_some_iff.1 hlast
      obtain ⟨before, rfl⟩ := List.getLast?_eq_some_iff.1 htext
      exact .changed hchanges
    · obtain ⟨uri, huri, rfl⟩ := Option.map_eq_some_iff.1 h
      exact .closed huri
    · obtain ⟨uri, huri, rfl⟩ := Option.map_eq_some_iff.1 h
      exact .focused huri
    · cases h
  · intro h
    cases h with
    | opened hparams => exact hparams
    | changed hparams => simp [event?, hparams]
    | closed hparams => simp [event?, hparams]
    | focused hparams => simp [event?, hparams]

variable {method : String} {params : Json} {event : Session.Event}

theorem Tells.isReference {uri : Uri} (h : Tells method params event) (huri : event.uri? = some uri) :
    Uri.isReference uri = true := by
  cases h with
  | opened hparams =>
      obtain ⟨id, language, version, text, heq, hreference⟩ := Params.opened_eq_some hparams
      cases heq
      cases huri
      exact hreference
  | changed hparams =>
      cases huri
      exact Params.isReference_of_changes hparams
  | closed hparams =>
      cases huri
      exact Params.isReference_of_aboutDocument hparams
  | focused hparams =>
      cases huri
      exact Params.isReference_of_aboutDocument hparams

theorem Tells.exists_update (h : Tells method params event) (session : Session) :
    ∃ update, (session.step event).1 = .update update := by
  cases h <;> exact ⟨_, rfl⟩

theorem query_of_unknown (h : ∀ read ask, ¬ Asks method read ask) (params : Json) :
    query method params = .error (.unknownMethod method) := by
  unfold query
  split
  · exact absurd .completion (h _ _)
  · exact absurd .hover (h _ _)
  · exact absurd .definition (h _ _)
  · rfl

section Asks

variable {read : Json → Option (Uri × Position)} {ask : Uri → Position → Session.Event}

theorem Asks.query_of_none (h : Asks method read ask) (hread : read params = none) :
    query method params = .error .invalidParams := by
  cases h <;> simp only [query, hread]

theorem Asks.query_of_some (h : Asks method read ask) {uri : Uri} {position : Position}
    (hread : read params = some (uri, position)) :
    query method params = .ok (ask uri position) := by
  cases h <;> simp only [query, hread]

end Asks

open Session

structure Sound (session : Session) : Prop where
  agree : Agree (fun _ => False) session session
  nodup : session.published.Nodup
  references : ∀ uri ∈ session.published, Uri.isReference uri = true

theorem SameState.of_agree {session other : Session} (h : Agree (fun _ => False) session other) :
    SameState session other :=
  ⟨OrderedMap.ext_find? fun uri => h.documents uri id, h.host.index, h.phase, h.published⟩

theorem eq_of_mem_published {before after : Session} {uri other : Uri} {update : Update}
    (h : Scan uri update before after) (hmem : other ∈ after.published) : other = uri := by
  obtain ⟨document, -, hindex⟩ := h.index
  rw [h.published, OrderedMap.mem_keys_iff, OrderedMap.contains_iff, Host.diagnostics, hindex] at hmem
  obtain ⟨list, hfind⟩ := hmem
  exact Index.eq_of_find?_diagnostics hfind

theorem sound_start (database : Database) (rule : RuleSeverity) : Sound (.start database rule) :=
  ⟨Session.agree_start _ database rule, List.nodup_nil, nofun⟩

namespace Sound

variable {session other : Session}

theorem quiet (h : Sound session) (hquiet : Quiet session other)
    (hagree : Agree (fun _ => False) other other) : Sound other := by
  refine ⟨hagree, ?_, ?_⟩
  · rw [hquiet.published]
    exact h.nodup
  · rw [hquiet.published]
    exact h.references

theorem agree_step (h : Sound session) (event : Event) :
    Agree (fun _ => False) (session.step event).2 (session.step event).2 :=
  (h.agree.step event fun _ _ _ _ hfalse => hfalse).2

theorem step (h : Sound session) (hreference : ∀ uri, event.uri? = some uri →
    Uri.isReference uri = true) : Sound (session.step event).2 := by
  rcases step_cases session event with ⟨-, hquiet⟩ | ⟨uri, update, huri, -, hscan⟩
  · exact h.quiet hquiet (h.agree_step event)
  · refine ⟨h.agree_step event, ?_, ?_⟩
    · rw [hscan.published]
      exact OrderedMap.keys_nodup _
    · intro target htarget
      rw [eq_of_mem_published hscan htarget]
      exact hreference uri huri

theorem update (h : Sound session) (hreference : ∀ uri, event.uri? = some uri →
      Uri.isReference uri = true) {update : Option Update}
    (hupdate : (session.step event).1 = .update update) :
    (update.getD []).Pairwise (fun a b => a.1 < b.1) ∧
      ∀ entry ∈ update.getD [], Uri.isReference entry.1 = true := by
  rcases step_cases session event with ⟨hnone, -⟩ | ⟨uri, scanned, huri, hsome, hscan⟩
  · rw [hupdate] at hnone
    obtain rfl : update = none := hnone
    exact ⟨.nil, nofun⟩
  · rw [hupdate] at hsome
    obtain rfl : update = some scanned := hsome
    rw [Option.getD_some, hscan.update]
    refine ⟨publication_ascending _ h.nodup, ?_⟩
    rintro ⟨target, list⟩ hentry
    rcases mem_publication.1 hentry with ⟨hpublished, -⟩ | hfind
    · exact h.references target hpublished
    · have hmem : target ∈ (session.step event).2.published := by
        rw [hscan.published, OrderedMap.mem_keys_iff, OrderedMap.contains_iff]
        exact ⟨list, hfind⟩
      rw [eq_of_mem_published hscan hmem]
      exact hreference uri huri

end Sound

theorem publish_eq_map {update : Option Update}
    (h : ∀ entry ∈ update.getD [], Uri.isReference entry.1 = true) :
    publish update = (update.getD []).map announcement := by
  calc publish update = (update.getD []).filterMap (some ∘ announcement) := by
        refine List.filterMap_congr ?_
        rintro ⟨uri, list⟩ hentry
        simp [Encoding.uri?, h _ hentry, announcement]
    _ = (update.getD []).map announcement := congrFun List.filterMap_eq_map _

variable {read : Json → Option (Uri × Position)} {ask : Uri → Position → Event}
  {actual expected : Session}

theorem Asks.quiet (h : Asks method read ask) (session : Session) (uri : Uri) (position : Position) :
    Quiet session (session.step (ask uri position)).2 := by
  cases h with
  | completion => exact completions_quiet session uri position
  | hover => exact .refl session
  | definition => exact .refl session

theorem Asks.agree (h : Asks method read ask) (hagree : Agree (fun _ => False) actual expected)
    (uri : Uri) (position : Position) :
    Agree (fun _ => False) (actual.step (ask uri position)).2 expected := by
  cases h with
  | completion => exact (hagree.completions uri position).2
  | hover => exact hagree
  | definition => exact hagree

theorem respond_spec (hsound : Sound actual) (hagree : Agree (fun _ => False) actual expected)
    (id : RequestId) (method : String) (params : Json) :
    ∃ response next, respond actual id method params = (response, next) ∧
      Responds expected id method params response ∧ Sound next ∧
      Agree (fun _ => False) next expected := by
  unfold respond
  by_cases hknown : ∃ read ask, Asks method read ask
  · obtain ⟨read, ask, hasks⟩ := hknown
    cases hread : read params with
    | none =>
        rw [hasks.query_of_none hread]
        exact ⟨_, _, rfl, .malformed hasks hread, hsound, hagree⟩
    | some place =>
        obtain ⟨uri, position⟩ := place
        obtain ⟨hanswer, -⟩ := hagree.step (ask uri position) fun _ _ _ _ hfalse => hfalse
        have hnext : Sound (actual.step (ask uri position)).2 :=
          hsound.quiet (hasks.quiet actual uri position) (hsound.agree_step _)
        rw [hasks.query_of_some hread]
        refine ⟨.result id (encodeAnswer (actual.step (ask uri position)).1), _, rfl, ?_, hnext,
          hasks.agree hagree uri position⟩
        rw [hanswer]
        exact .answered hasks hread
  · have hunknown : ∀ read ask, ¬ Asks method read ask := fun read ask hasks =>
      hknown ⟨read, ask, hasks⟩
    rw [query_of_unknown hunknown]
    exact ⟨_, _, rfl, .unknown hunknown, hsound, hagree⟩

theorem notify_of_tells (hsound : Sound actual) (hagree : Agree (fun _ => False) actual expected)
    (h : Tells method params event) :
    ∃ update next told, notify actual method params = ((update.getD []).map announcement, next) ∧
      expected.step event = (.update update, told) ∧
      (update.getD []).Pairwise (fun a b => a.1 < b.1) ∧ Sound next ∧
      Agree (fun _ => False) next told := by
  obtain ⟨update, hupdate⟩ := h.exists_update actual
  obtain ⟨hanswer, hnext⟩ := hagree.step event fun _ _ _ _ hfalse => hfalse
  have hreference (uri : Uri) (huri : event.uri? = some uri) : Uri.isReference uri = true :=
    h.isReference huri
  obtain ⟨hascending, hreferences⟩ := hsound.update hreference hupdate
  refine ⟨update, (actual.step event).2, (expected.step event).2, ?_, ?_, hascending,
    hsound.step hreference, hnext⟩
  · simp only [notify, event?_eq_some_iff.2 h, hupdate, publish_eq_map hreferences]
  · rw [← hupdate, hanswer]

theorem notify_of_untold (h : ∀ event, ¬ Tells method params event) (session : Session) :
    notify session method params = ([], session) := by
  cases hevent : event? method params with
  | none => simp [notify, hevent]
  | some event => exact absurd (event?_eq_some_iff.1 hevent) (h event)

theorem exchange (setting : Setting) (hsound : Sound actual)
    (hagree : Agree (fun _ => False) actual expected) {message : Message}
    (hmessage : ∀ id params, message ≠ .request id "shutdown" params) :
    ∃ sent next told, step setting (.running actual) message = (sent, .running next) ∧
      Sound next ∧ Agree (fun _ => False) next told ∧ (Idle message → told = expected) ∧
      ∀ messages more after, Transcript told messages more after →
        Transcript expected (message :: messages) (sent :: more) after := by
  cases message with
  | request id method params =>
      have hmethod : method ≠ "shutdown" := fun heq => hmessage id params (by rw [heq])
      obtain ⟨response, next, hrespond, hresponse, hnext, hagree'⟩ :=
        respond_spec hsound hagree id method params
      refine ⟨[response], next, expected, ?_, hnext, hagree', fun _ => rfl, ?_⟩
      · simp only [step, if_neg hmethod, hrespond]
      · exact fun _ _ _ htranscript => .request hresponse htranscript
  | response id =>
      exact ⟨[], actual, expected, rfl, hsound, hagree, fun _ => rfl,
        fun _ _ _ htranscript => .response htranscript⟩
  | notification method params =>
      by_cases htells : ∃ event, Tells method params event
      · obtain ⟨event, hevent⟩ := htells
        obtain ⟨update, next, told, hnotify, hstep, hascending, hnext, hagree'⟩ :=
          notify_of_tells hsound hagree hevent
        refine ⟨(update.getD []).map announcement, next, told, ?_, hnext, hagree', ?_, ?_⟩
        · simp only [step, hnotify]
        · rintro ⟨⟩
          next huntold => exact absurd hevent (huntold event)
        · exact fun _ _ _ htranscript => .told hevent hstep hascending htranscript
      · have huntold : ∀ event, ¬ Tells method params event := not_exists.1 htells
        refine ⟨[], actual, expected, ?_, hsound, hagree, fun _ => rfl, ?_⟩
        · simp only [step, notify_of_untold huntold]
        · exact fun _ _ _ htranscript => .untold huntold htranscript

theorem converse_transcript (setting : Setting) {messages : List Message} (hsound : Sound actual)
    (hagree : Agree (fun _ => False) actual expected)
    (hshutdown : ∀ id params, .request id "shutdown" params ∉ messages) :
    ∃ sent after told, converse setting (.running actual) messages = (sent, .running after) ∧
      Transcript expected messages sent told ∧ Agree (fun _ => False) after told := by
  -- a query may fill the member cache of the session that runs, so the two only agree
  induction messages generalizing actual expected with
  | nil => exact ⟨[], actual, expected, rfl, .nil, hagree⟩
  | cons message rest ih =>
      have hmessage (id : RequestId) (params : Json) : message ≠ .request id "shutdown" params :=
        fun heq => hshutdown id params (heq ▸ List.mem_cons_self)
      have hrest (id : RequestId) (params : Json) : .request id "shutdown" params ∉ rest :=
        fun hmem => hshutdown id params (List.mem_cons_of_mem message hmem)
      obtain ⟨sent, next, moved, hstep, hsound', hagree', -, hcontinue⟩ :=
        exchange setting hsound hagree hmessage
      obtain ⟨more, after, told, hconverse, htranscript, hafter⟩ := ih hsound' hagree' hrest
      refine ⟨sent :: more, after, told, ?_, hcontinue _ _ _ htranscript, hafter⟩
      simp only [converse, hstep, hconverse]

theorem Responds.responseId? {session : Session} {id : RequestId} {response : Sent}
    (h : Responds session id method params response) : response.responseId? = some id := by
  cases h <;> rfl

theorem filterMap_announcement (entries : Update) :
    (entries.map announcement).filterMap Sent.responseId? = [] := by
  rw [List.filterMap_map]
  exact List.filterMap_eq_nil_iff.2 fun _ _ => rfl

theorem Transcript.responseIds {session after : Session} {messages : List Message}
    {sent : List (List Sent)} (h : Transcript session messages sent after) :
    sent.flatten.filterMap Sent.responseId? = messages.filterMap Message.requestId? := by
  induction h with
  | nil => rfl
  | request hresponds _ ih =>
      rw [List.flatten_cons, List.filterMap_append, ih]
      simp [hresponds.responseId?, Message.requestId?]
  | response _ ih => exact ih
  | told _ _ _ _ ih =>
      rw [List.flatten_cons, List.filterMap_append, filterMap_announcement, ih]
      rfl
  | untold _ _ ih => exact ih

def Stage.IsSound : Stage → Prop
  | .greeted session => Sound session
  | .running session => Sound session
  | .waiting | .leaving | .ended _ => True

theorem isSound_start (setting : Setting) (id : RequestId) (params : Json) :
    (start setting id params).2.IsSound := by
  unfold start
  cases Params.startup params with
  | none => trivial
  | some startup =>
      dsimp only
      split
      · trivial
      · exact sound_start _ _

theorem isSound_greeted {session : Session} (h : Sound session) (setting : Setting)
    (message : Message) : (step setting (.greeted session) message).2.IsSound := by
  have hactive : Sound (session.step (.activate none)).2 := h.step nofun
  cases message with
  | request id method params => trivial
  | response id => trivial
  | notification method params =>
      by_cases hmethod : method = "initialized"
      · subst hmethod
        exact hactive
      · have hstep : step setting (.greeted session) (.notification method params) =
            ([], .ended (.disorder .notInitialized)) := by simp [step, hmethod]
        rw [hstep]
        trivial

theorem isSound_running {session : Session} (h : Sound session) (setting : Setting)
    (message : Message) : (step setting (.running session) message).2.IsSound := by
  by_cases hshutdown : ∃ id params, message = .request id "shutdown" params
  · obtain ⟨id, params, rfl⟩ := hshutdown
    trivial
  · have hmessage (id : RequestId) (params : Json) : message ≠ .request id "shutdown" params :=
      fun heq => hshutdown ⟨id, params, heq⟩
    obtain ⟨sent, next, told, hstep, hnext, -⟩ := exchange setting h h.agree hmessage
    rw [hstep]
    exact hnext

theorem Stage.IsSound.step {stage : Stage} (h : stage.IsSound) (setting : Setting)
    (message : Message) : (step setting stage message).2.IsSound := by
  cases stage with
  | waiting =>
      cases message with
      | request id method params =>
          simp only [Server.step]
          split
          · exact isSound_start setting id params
          · trivial
      | notification method params =>
          simp only [Server.step]
          split <;> trivial
      | response id => trivial
  | greeted session => exact isSound_greeted h setting message
  | running session => exact isSound_running h setting message
  | leaving =>
      unfold Server.step
      split <;> trivial
  | ended ending => trivial

theorem Stage.IsSound.converse {stage : Stage} (h : stage.IsSound) (setting : Setting)
    (messages : List Message) : (converse setting stage messages).2.IsSound := by
  induction messages generalizing stage with
  | nil => exact h
  | cons message rest ih => exact ih (h.step setting message)

theorem Idle.sameState {message : Message} (h : Idle message) (setting : Setting)
    {session : Session} (hsound : Sound session) :
    ∃ sent after, step setting (.running session) message = (sent, .running after) ∧
      SameState after session := by
  have hmessage (id : RequestId) (params : Json) : message ≠ .request id "shutdown" params := by
    rintro rfl
    cases h with
    | request hmethod => exact hmethod rfl
  obtain ⟨sent, after, told, hstep, -, hagree, htold, -⟩ :=
    exchange setting hsound hsound.agree hmessage
  rw [htold h] at hagree
  exact ⟨sent, after, hstep, .of_agree hagree⟩

end HtmlIds.Server
