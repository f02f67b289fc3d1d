import HtmlIds.Check.Basic
import HtmlIds.Proofs.Editor.DuplicateIds
import HtmlIds.Proofs.Session.Freshness
import HtmlIds.Proofs.Session.Publication

namespace HtmlIds.Check

open Session

structure Concurs (rule : RuleSeverity) (uri : Uri) (text : String) (update : Update) : Prop where
  own : (update.lookup uri).getD [] = diagnostics uri text rule
  others : ∀ entry ∈ update, entry.1 ≠ uri → entry.2 = []

theorem concurs_of_scan {before after : Session} {view : View} {uri : Uri} {text : String}
    {update : Update} {rule : RuleSeverity} (hexact : Exact before view)
    (hscan : Scan uri update before after) (hindex : after.host.index = .build uri text)
    (hrule : before.host.duplicateIds = rule) : Concurs rule uri text update := by
  have hdiagnostics : after.host.diagnostics = (Index.build uri text).diagnostics rule := by
    rw [Host.diagnostics, hindex, hscan.duplicateIds, hrule]
  have hmem (other : Uri) (list : List Diagnostic) : (other, list) ∈ update ↔
      (other ∈ before.published ∧
        ((Index.build uri text).diagnostics rule).find? other = none ∧ list = []) ∨
      ((Index.build uri text).diagnostics rule).find? other = some list := by
    rw [hscan.update, mem_publication, hdiagnostics]
  have hlookup (list : List Diagnostic) : update.lookup uri = some list ↔ (uri, list) ∈ update :=
    OrderedMap.lookup_eq_some_iff (hexact.ascending hscan)
  constructor
  · have hcheck : diagnostics uri text rule =
        (((Index.build uri text).diagnostics rule).find? uri).getD [] := rfl
    rw [hcheck]
    cases hfind : ((Index.build uri text).diagnostics rule).find? uri with
    | some list => rw [(hlookup list).2 ((hmem uri list).2 (.inr hfind))]
    | none =>
        cases hentry : update.lookup uri with
        | none => rfl
        | some list =>
            -- an entry without a problem is a clear
            rcases (hmem uri list).1 ((hlookup list).1 hentry) with ⟨-, -, rfl⟩ | hsome
            · rfl
            · cases hfind.symm.trans hsome
  · rintro ⟨other, list⟩ hentry hne
    rcases (hmem other list).1 hentry with ⟨-, -, rfl⟩ | hsome
    · rfl
    · exact absurd (Index.eq_of_find?_diagnostics hsome) hne

theorem concurs_of_scanOf? (database : Database) (rule : RuleSeverity) (events : List Event)
    {event : Event} {uri : Uri} {text : String}
    (h : ((start database rule).run events).2.scanOf? event = some (uri, text)) :
    ∃ update, (((start database rule).run events).2.step event).1.update? = some update ∧
      Concurs rule uri text update := by
  have hexact := (exact_start database rule).run events
  have hrule : ((start database rule).run events).2.host.duplicateIds = rule :=
    duplicateIds_run (start database rule) events
  rcases step_cases ((start database rule).run events).2 event with
    ⟨hnone, -⟩ | ⟨target, update, htarget, hupdate, hscan⟩
  · cases (scanOf?_of_quiet hnone).symm.trans h
  · obtain ⟨document, helig, hindex⟩ := hscan.index
    cases (scanOf?_of_scan htarget hupdate helig).symm.trans h
    exact ⟨update, hupdate, concurs_of_scan hexact hscan hindex hrule⟩

variable {files : FileSystem} {path text : String}

theorem find?_of_readText (h : files.readText path = .ok text) :
    ∃ bytes, files.find? path = some (.file bytes) := by
  cases hfind : files.find path with
  | error problem => simp [FileSystem.readText, FileSystem.readBytes, hfind] at h
  | ok tree =>
      cases tree with
      | directory entries => simp [FileSystem.readText, FileSystem.readBytes, hfind] at h
      | file bytes => exact ⟨bytes, by simp [FileSystem.find?, hfind, Except.toOption]⟩

theorem checkFile_of_readText (h : files.readText path = .ok text) (rule : RuleSeverity) :
    checkFile files rule path =
      .ok ⟨path, diagnostics (.ofPath (Path.absolute files.workingDirectory path)) text rule⟩ := by
  simp [checkFile, h]

theorem report_of_readText (h : files.readText path = .ok text) (rule : RuleSeverity) :
    report files rule [path] =
      ⟨[⟨path, diagnostics (.ofPath (Path.absolute files.workingDirectory path)) text rule⟩], []⟩ := by
  obtain ⟨bytes, hfind⟩ := find?_of_readText h
  have hinputs : Inputs.ofRoots files [path] = { files := [path] } := by
    simp [Inputs.ofRoots, Inputs.ofRoot, Inputs.append, hfind]
  simp [report, hinputs, checkFile_of_readText h, Except.toOption]

theorem exitCode_eq_diagnosticError_iff (file : FileReport) :
    (Report.mk [file] []).exitCode = .diagnosticError ↔
      ∃ diagnostic ∈ file.diagnostics, diagnostic.severity = .error := by
  simp [Report.exitCode, FileReport.count, List.length_pos_iff_exists_mem]

theorem check_concurs (database : Database) (rule : RuleSeverity) (events : List Event) (uri : Uri)
    (text : String) :
    let session := ((start database rule).run events).2
    (∀ event, session.scanOf? event = some (uri, text) →
      ∃ update, (session.step event).1.update? = some update ∧ Concurs rule uri text update) ∧
    ∀ files path, FileSystem.readText files path = .ok text →
      Uri.ofPath (Path.absolute files.workingDirectory path) = uri →
        checkFile files rule path = .ok ⟨path, diagnostics uri text rule⟩ ∧
        (session.phase ≠ .inactive → ∀ version, ∃ update,
          (session.step (.opened uri "html" version text)).1.update? = some update ∧
          ((report files rule [path]).exitCode = .diagnosticError ↔
            ∃ diagnostic ∈ (update.lookup uri).getD [], diagnostic.severity = .error)) := by
  intro session
  refine ⟨fun event => concurs_of_scanOf? database rule events, ?_⟩
  rintro files path hread rfl
  refine ⟨checkFile_of_readText hread rule, fun hactive version => ?_⟩
  obtain ⟨update, hupdate, hconcurs⟩ :=
    concurs_of_scanOf? database rule events (scanOf?_opened hactive _ version text)
  refine ⟨update, hupdate, ?_⟩
  rw [report_of_readText hread, hconcurs.own]
  exact exitCode_eq_diagnosticError_iff _

end HtmlIds.Check
