import HtmlIds.Proofs.Session.Step

namespace HtmlIds.Session

def scanOf? (session : Session) (event : Event) : Option (Uri × String) :=
  let (answer, after) := session.step event
  answer.update?.bind fun _ => event.uri?.bind fun uri =>
    (after.documents.find? uri).map fun document => (uri, document.text)

def lastScan? (session : Session) : List Event → Option (Uri × String)
  | [] => none
  | event :: events => ((session.step event).2.lastScan? events).or (session.scanOf? event)

inductive Fresh (session : Session) : Option (Uri × String) → Prop
  | unscanned : session.phase ≠ .activeWithIndex → session.host.index = .empty → Fresh session none
  | scanned {uri text} : session.phase = .activeWithIndex →
      session.host.index = .build uri text →
      (∀ document, session.eligible? uri = some document → document.text = text) →
      Fresh session (some (uri, text))

theorem eligible?_eq_some_iff {session : Session} {uri : Uri} {document : Document} :
    session.eligible? uri = some document ↔
      session.documents.find? uri = some document ∧ document.isEligible = true :=
  Option.filter_eq_some_iff

theorem scanOf?_of_quiet {session : Session} {event : Event}
    (h : (session.step event).1.update? = none) : session.scanOf? event = none := by
  simp [scanOf?, h]

theorem scanOf?_of_scan {session : Session} {event : Event} {uri : Uri} {update : Update}
    {document : Document} (huri : event.uri? = some uri)
    (hupdate : (session.step event).1.update? = some update)
    (helig : (session.step event).2.eligible? uri = some document) :
    session.scanOf? event = some (uri, document.text) := by
  simp [scanOf?, huri, hupdate, (eligible?_eq_some_iff.1 helig).1]

theorem scanOf?_opened {session : Session} (h : session.phase ≠ .inactive) (uri : Uri)
    (version : Int) (text : String) :
    session.scanOf? (.opened uri "html" version text) = some (uri, text) := by
  let event : Event := .opened uri "html" version text
  let document : Document := ⟨some .html, version, text⟩
  let stored := { session with documents := session.documents.insert uri document : Session }
  have helig : stored.eligible? uri = some document := by
    rw [eligible?_insert, if_pos rfl]
    rfl
  have hactive : stored.phase ≠ .inactive := h
  obtain ⟨update, hupdate, -, -⟩ := rescan_of_eligible hactive helig
  have hanswer : (session.step event).1.update? = some update := hupdate
  have hafter : (session.step event).2.eligible? uri = some document := by
    rw [eligible?, documents_step]
    exact helig
  have huri : event.uri? = some uri := rfl
  exact scanOf?_of_scan huri hanswer hafter

theorem Quiet.phase_iff {before after : Session} (h : Quiet before after) :
    after.phase = .activeWithIndex ↔ before.phase = .activeWithIndex := by
  rcases h.phase with hphase | ⟨hbefore, hafter⟩
  · rw [hphase]
  · simp [hbefore, hafter]

theorem Fresh.quiet {before after : Session} {scan : Option (Uri × String)}
    (h : Fresh before scan) (hquiet : Quiet before after) : Fresh after scan := by
  cases h with
  | unscanned hphase hindex =>
      exact .unscanned (fun hafter => hphase (hquiet.phase_iff.1 hafter))
        (hquiet.index.trans hindex)
  | scanned hphase hindex htext =>
      have hafter := hquiet.phase_iff.2 hphase
      refine .scanned hafter (hquiet.index.trans hindex) fun document helig => ?_
      rcases hquiet.eligible (by simp [hafter]) _ with hnone | hsame
      · cases hnone.symm.trans helig
      · exact htext document (hsame.symm.trans helig)

theorem Fresh.step {session : Session} {scan : Option (Uri × String)} (h : Fresh session scan)
    (event : Event) : Fresh (session.step event).2 ((session.scanOf? event).or scan) := by
  rcases step_cases session event with ⟨hnone, hquiet⟩ | ⟨uri, update, huri, hupdate, hscan⟩
  · rw [scanOf?_of_quiet hnone, Option.none_or]
    exact h.quiet hquiet
  · obtain ⟨document, helig, hindex⟩ := hscan.index
    rw [scanOf?_of_scan huri hupdate helig, Option.some_or]
    refine .scanned hscan.phase hindex fun other hother => ?_
    cases helig.symm.trans hother
    rfl

theorem Fresh.run {session : Session} {scan : Option (Uri × String)} (h : Fresh session scan)
    (events : List Event) :
    Fresh (session.run events).2 ((session.lastScan? events).or scan) := by
  induction events generalizing session scan with
  | nil => exact h
  | cons event events ih =>
      rw [lastScan?, Option.or_assoc]
      exact ih (h.step event)

theorem fresh_start (database : Database) (rule : RuleSeverity) :
    Fresh (start database rule) none :=
  .unscanned nofun rfl

theorem index_fresh (database : Database) (rule : RuleSeverity) (events : List Event) :
    let session := ((start database rule).run events).2
    (session.phase = .activeWithIndex ↔ session.host.index.file.isSome = true) ∧
      (session.phase ≠ .activeWithIndex → session.host.index = .empty) ∧
      ∀ uri, session.host.index.file = some uri →
        ∃ text, (start database rule).lastScan? events = some (uri, text) ∧
          session.host.index = .build uri text ∧
          ∀ document, session.documents.find? uri = some document →
            document.isEligible = true → document.text = text := by
  intro session
  have h : Fresh session ((start database rule).lastScan? events) := by
    simpa using (fresh_start database rule).run events
  cases hscan : (start database rule).lastScan? events with
  | none =>
      rw [hscan] at h
      cases h with
      | unscanned hphase hindex => simp [hphase, hindex, Index.empty]
  | some scan =>
      rw [hscan] at h
      cases h with
      | scanned hphase hindex htext =>
          refine ⟨?_, fun hnot => absurd hphase hnot, fun uri hfile => ?_⟩
          · simp [hphase, hindex, Index.build]
          · obtain rfl := Option.some.inj ((congrArg Index.file hindex).symm.trans hfile)
            exact ⟨_, rfl, hindex, fun document hfind helig =>
              htext document (eligible?_eq_some_iff.2 ⟨hfind, helig⟩)⟩

end HtmlIds.Session
