import HtmlIds.Proofs.Session.Agreement

namespace HtmlIds.Session

abbrev Edit := Event × Option Event

def original (edits : List Edit) : List Event :=
  edits.map Prod.fst

def thinned (edits : List Edit) : List Event :=
  edits.filterMap Prod.snd

def remaining (edits : List Edit) (answers : List Answer) : List Answer :=
  (edits.zip answers).filterMap fun (edit, answer) => edit.2.map fun _ => answer

def NeverMarkup (events : List Event) (uri : Uri) : Prop :=
  ∀ version text, .opened uri "html" version text ∉ events

inductive Allowed (ignored : Uri → Prop) (session : Session) : Event → Option Event → Prop
  | kept {event} : Allowed ignored session event (some event)
  | unfocused {uri} : ignored uri →
      Allowed ignored session (.activate (some uri)) (some (.activate none))
  | foreign {event uri} : event.uri? = some uri → (∀ focused, event ≠ .activate focused) →
      ignored uri → Allowed ignored session event none
  | late {uri version text} :
      (∀ document, session.documents.find? uri = some document → version ≤ document.version) →
      Allowed ignored session (.changed uri version text) none

inductive Thins (ignored : Uri → Prop) : Session → List Edit → Prop
  | nil {session} : Thins ignored session []
  | cons {session event stand rest} : Allowed ignored session event stand →
      Thins ignored (session.step event).2 rest → Thins ignored session ((event, stand) :: rest)

variable {ignored : Uri → Prop} {session other : Session}

theorem unseen_step {uri : Uri} {event : Event} (hinel : session.eligible? uri = none)
    (huri : event.uri? = some uri) (hactivate : ∀ focused, event ≠ .activate focused)
    (hopened : ∀ version text, event ≠ .opened uri "html" version text) :
    Unseen uri session (session.step event).2 := by
  have hquery : session.queryable? uri = none := by simp [queryable?, hinel]
  cases event with
  | activate focused => exact absurd rfl (hactivate focused)
  | opened uri language version text =>
      obtain rfl := Option.some.inj huri
      have hlanguage : language ≠ "html" := fun heq => hopened version text (by rw [heq])
      exact (unseen_insert uri (isEligible_of_ne hlanguage version text)).2
  | changed uri version text =>
      obtain rfl := Option.some.inj huri
      exact (unseen_changed hinel version text).2
  | focused uri =>
      obtain rfl := Option.some.inj huri
      simp only [step, rescan_of_ineligible hinel]
      exact .refl hinel
  | closed uri =>
      obtain rfl := Option.some.inj huri
      refine ⟨rfl, rfl, rfl, fun target htarget => ?_, ?_⟩
      · exact (OrderedMap.find?_erase ..).trans (if_neg htarget)
      · exact (eligible?_erase ..).trans (if_pos rfl)
  | completions uri position =>
      obtain rfl := Option.some.inj huri
      simp only [step, completions, hquery]
      exact .refl hinel
  | hover uri position =>
      obtain rfl := Option.some.inj huri
      exact .refl hinel
  | definition uri position =>
      obtain rfl := Option.some.inj huri
      exact .refl hinel

theorem activate_of_ineligible {uri : Uri} (h : session.eligible? uri = none) :
    session.activate (some uri) = session.activate none := by
  unfold activate
  split
  · rfl
  · exact rescan_of_ineligible h

theorem Agree.run (h : Agree ignored session other) {edits : List Edit}
    (hthins : Thins ignored session edits)
    (hopened : ∀ uri version text, .opened uri "html" version text ∈ original edits → ¬ ignored uri) :
    (other.run (thinned edits)).1 = remaining edits (session.run (original edits)).1 ∧
      Agree ignored (session.run (original edits)).2 (other.run (thinned edits)).2 := by
  induction hthins generalizing other with
  | nil => exact ⟨rfl, h⟩
  | @cons session event stand rest hallowed hthins ih =>
      have hrest : ∀ uri version text, .opened uri "html" version text ∈ original rest →
          ¬ ignored uri := fun uri version text hmem =>
        hopened uri version text (List.mem_cons_of_mem _ hmem)
      have hevent : ∀ uri version text, event = .opened uri "html" version text → ¬ ignored uri := by
        rintro uri version text rfl
        exact hopened uri version text List.mem_cons_self
      -- what is left out moves only the longer run, and there nothing that the other depends on
      cases hallowed with
      | kept =>
          obtain ⟨hanswer, hstep⟩ := h.step event hevent
          obtain ⟨hanswers, hafter⟩ := ih hstep hrest
          exact ⟨congrArg₂ List.cons hanswer.symm hanswers, hafter⟩
      | @unfocused uri huri =>
          obtain ⟨hinel, -⟩ := h.ineligible uri huri
          have hsame : session.step (.activate (some uri)) = session.step (.activate none) := by
            simp only [Session.step, activate_of_ineligible hinel]
          have hnothing : ∀ uri version text,
              Event.activate none = .opened uri "html" version text → ¬ ignored uri := by
            intro uri version text heq
            cases heq
          obtain ⟨hanswer, hstep⟩ := h.step (.activate none) hnothing
          rw [← hsame] at hanswer hstep
          obtain ⟨hanswers, hafter⟩ := ih hstep hrest
          exact ⟨congrArg₂ List.cons hanswer.symm hanswers, hafter⟩
      | @foreign _ uri haddressed hactivate huri =>
          obtain ⟨hinel, -⟩ := h.ineligible uri huri
          have hmarkup : ∀ version text, event ≠ .opened uri "html" version text :=
            fun version text heq => hevent uri version text heq huri
          have hunseen := unseen_step hinel haddressed hactivate hmarkup
          exact ih (h.unseen huri hunseen) hrest
      | @late uri version text hlate =>
          have hsame : (session.step (.changed uri version text)).2 = session :=
            congrArg Prod.snd (changed_of_late hlate)
          exact ih (hsame.symm ▸ h) hrest

theorem ignored_events_silent (database : Database) (rule : RuleSeverity) (edits : List Edit)
    (h : Thins (NeverMarkup (original edits)) (start database rule) edits) :
    let whole := (start database rule).run (original edits)
    let short := (start database rule).run (thinned edits)
    short.1 = remaining edits whole.1 ∧
      short.2.phase = whole.2.phase ∧
      short.2.host.index = whole.2.host.index ∧
      short.2.published = whole.2.published ∧
      ∀ uri, ¬ NeverMarkup (original edits) uri →
        short.2.documents.find? uri = whole.2.documents.find? uri := by
  intro whole short
  have hstart := agree_start (NeverMarkup (original edits)) database rule
  have hopened : ∀ uri version text, .opened uri "html" version text ∈ original edits →
      ¬ NeverMarkup (original edits) uri :=
    fun uri version text hmem hnever => hnever version text hmem
  obtain ⟨hanswers, hagree⟩ := hstart.run h hopened
  refine ⟨hanswers, hagree.phase.symm, hagree.host.index.symm, hagree.published.symm, ?_⟩
  intro uri huri
  exact (hagree.documents uri huri).symm

theorem ignored_events_silent_script :
    let script := "file:///a.js"
    let page := "file:///b.html"
    let scan : Event := .opened page "html" 4 "<i id='x'><b id='x'>"
    let edits : List Edit :=
      [(.activate (some script), some (.activate none)),
        (.opened script "javascript" 1 "<i id='x'>", none), (scan, some scan),
        (.changed script 2 "", none), (.changed page 4 "", none), (.completions script ⟨0, 0⟩, none),
        (.focused page, some (.focused page)), (.closed script, none)]
    Thins (NeverMarkup (original edits)) (start .empty .error) edits ∧
      thinned edits = [.activate none, scan, .focused page] ∧
      ((start .empty .error).run (thinned edits)).1 =
        remaining edits ((start .empty .error).run (original edits)).1 := by
  intro script page scan edits
  have hscript : NeverMarkup (original edits) script := by
    simp [NeverMarkup, original, edits, scan, script, page]
  have hthins : Thins (NeverMarkup (original edits)) (start .empty .error) edits := by
    refine .cons (.unfocused hscript) (.cons (.foreign rfl nofun hscript) (.cons .kept
      (.cons (.foreign rfl nofun hscript) (.cons (.late ?_) (.cons (.foreign rfl nofun hscript)
        (.cons .kept (.cons (.foreign rfl nofun hscript) .nil)))))))
    intro document hfind
    have hpage : (((Documents.after .empty (.opened script "javascript" 1 "<i id='x'>")).after
        scan).after (.changed script 2 "")).find? page =
          some ⟨some .html, 4, "<i id='x'><b id='x'>"⟩ := by
      decide
    simp only [documents_step] at hfind
    cases hpage.symm.trans hfind
    decide
  exact ⟨hthins, rfl, (ignored_events_silent .empty .error edits hthins).1⟩

end HtmlIds.Session
