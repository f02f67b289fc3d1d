import HtmlIds.Proofs.Check.Coherence
import HtmlIds.Proofs.Check.Discovery

namespace HtmlIds.Check

structure SameFindings (report report' : Report) : Prop where
  files : report.files = report'.files
  sorted : report.files.Pairwise fun a b => a.path ≤ b.path
  failures : report.failures.Perm report'.failures

structure Interchangeable (format : ReportFormat) (outcome outcome' : Outcome) : Prop where
  exitCode : outcome.exitCode = outcome'.exitCode
  human : format = .human → outcome.output = outcome'.output ∧
    ∃ lines lines' : List String, outcome.errors = String.join lines ∧
      outcome'.errors = String.join lines' ∧ lines.Perm lines'
  json : format = .json → outcome.errors = outcome'.errors ∧
    ∃ value value' : Json, outcome.output = value.indented ++ "\n" ∧
      outcome'.output = value'.indented ++ "\n" ∧
      (∀ key, key ≠ "io_errors" → value.member key = value'.member key) ∧
      ∃ failures failures' : List String, value.member "io_errors" = .array (failures.map .string) ∧
        value'.member "io_errors" = .array (failures'.map .string) ∧ failures.Perm failures'

variable {files : FileSystem} {rule : RuleSeverity} {path : String} {paths paths' : List String}
  {report report' : Report} {options : Options} {config : Config}

theorem path_of_checkFile {file : FileReport} (h : checkFile files rule path = .ok file) :
    file.path = path := by
  unfold checkFile at h
  split at h
  · cases h
  · exact congrArg FileReport.path (Except.ok.inj h).symm

def failure? (files : FileSystem) (rule : RuleSeverity) (path : String) : Option String :=
  match checkFile files rule path with
  | .ok _ => none
  | .error problem => some (path ++ ": " ++ problem.message)

theorem report_eq (files : FileSystem) (rule : RuleSeverity) (paths : List String) :
    Check.report files rule paths =
      ⟨((Inputs.ofRoots files paths).files.filterMap fun path =>
          (checkFile files rule path).toOption).mergeSort fun a b => a.path ≤ b.path,
        (Inputs.ofRoots files paths).failures ++
          (Inputs.ofRoots files paths).files.filterMap (failure? files rule)⟩ := by
  simp only [Check.report, List.filterMap_map]
  rfl

theorem checkFile_path_of_mem {inputs : List String} {file : FileReport}
    (h : file ∈ inputs.filterMap fun path => (checkFile files rule path).toOption) :
    checkFile files rule file.path = .ok file := by
  obtain ⟨path, -, hsome⟩ := List.mem_filterMap.1 h
  cases hcheck : checkFile files rule path with
  | error problem =>
      rw [hcheck] at hsome
      cases hsome
  | ok found =>
      rw [hcheck] at hsome
      obtain rfl := Option.some.inj hsome
      rwa [path_of_checkFile hcheck]

theorem ofRoots_perm (files : FileSystem) (h : paths.Perm paths') :
    (Inputs.ofRoots files paths).files.Perm (Inputs.ofRoots files paths').files ∧
      (Inputs.ofRoots files paths).failures.Perm (Inputs.ofRoots files paths').failures := by
  rw [ofRoots_eq, ofRoots_eq]
  exact ⟨(h.map _).flatMap_right _, (h.map _).flatMap_right _⟩

theorem sameFindings_report (files : FileSystem) (rule : RuleSeverity) (h : paths.Perm paths') :
    SameFindings (Check.report files rule paths) (Check.report files rule paths') := by
  obtain ⟨hfiles, hfailures⟩ := ofRoots_perm files h
  rw [report_eq, report_eq]
  refine ⟨?_, pairwise_le_mergeSort FileReport.path _, hfailures.append (hfiles.filterMap _)⟩
  refine mergeSort_eq_of_perm FileReport.path (hfiles.filterMap _) fun file hfile other hother heq => ?_
  have hcheck := checkFile_path_of_mem hfile
  rw [heq, checkFile_path_of_mem hother] at hcheck
  exact (Except.ok.inj hcheck).symm

namespace SameFindings

theorem total (h : SameFindings report report') (severity : Severity) :
    report.total severity = report'.total severity := by
  rw [Report.total, Report.total, h.files]

theorem noFailures (h : SameFindings report report') :
    report.failures = [] ↔ report'.failures = [] :=
  ⟨fun hnil => (hnil ▸ h.failures.symm).eq_nil, fun hnil => (hnil ▸ h.failures).eq_nil⟩

theorem exitCode (h : SameFindings report report') : report.exitCode = report'.exitCode := by
  simp only [Report.exitCode, ne_eq, h.noFailures, h.files]

theorem display (h : SameFindings report report') (colors quiet : Bool) :
    report.display colors quiet = report'.display colors quiet := by
  simp only [Report.display, Report.summary, h.files, h.total]

theorem member_encode (h : SameFindings report report') {key : String} (hkey : key ≠ "io_errors") :
    report.encode.member key = report'.encode.member key := by
  have hsuccess : report.isSuccess = report'.isSuccess := by
    simp only [Report.isSuccess, h.total, h.noFailures]
  have hissues : report.withIssues = report'.withIssues := by
    rw [Report.withIssues, Report.withIssues, h.files]
  simp only [Report.encode, Json.member_ofMembers, OrderedMap.valuesOf_cons, if_neg hkey, hsuccess,
    hissues, h.total, h.files]

end SameFindings

def printed (format : ReportFormat) (colors quiet : Bool) (report : Report) : Outcome :=
  match format with
  | .human =>
    { exitCode := report.exitCode, output := report.display colors quiet
      errors := report.displayFailures colors }
  | .json => { exitCode := report.exitCode, output := report.encode.indented ++ "\n" }

theorem run_eq_printed (hconfig : resolveConfig files options.config = .ok config) (colors : Bool)
    (paths : List String) (format : ReportFormat) :
    run files options colors paths format = printed format colors options.quiet
      (Check.report files config.severity (if paths = [] then ["."] else paths)) := by
  rw [run, hconfig]
  cases format <;> rfl

theorem SameFindings.interchangeable (h : SameFindings report report') (format : ReportFormat)
    (colors quiet : Bool) : Interchangeable format (printed format colors quiet report)
      (printed format colors quiet report') := by
  cases format with
  | human =>
      refine ⟨h.exitCode, fun _ => ⟨h.display colors quiet, ?_⟩, nofun⟩
      exact ⟨_, _, rfl, rfl, h.failures.map _⟩
  | json =>
      refine ⟨h.exitCode, nofun, fun _ => ⟨rfl, _, _, rfl, rfl, fun key => h.member_encode, ?_⟩⟩
      exact ⟨_, _, (Check.member_encode report).2.2, (Check.member_encode report').2.2, h.failures⟩

theorem arguments_interchangeable (hconfig : resolveConfig files options.config = .ok config)
    (h : paths.Perm paths') (colors : Bool) (format : ReportFormat) :
    ∃ report report' : Report, SameFindings report report' ∧
      run files options colors paths format = printed format colors options.quiet report ∧
      run files options colors paths' format = printed format colors options.quiet report' ∧
      Interchangeable format (run files options colors paths format)
        (run files options colors paths' format) := by
  -- without paths the working directory is checked, and only no paths are a permutation of no paths
  have hroots : (if paths = [] then ["."] else paths).Perm (if paths' = [] then ["."] else paths') := by
    by_cases hnil : paths = []
    · subst hnil
      obtain rfl := h.nil_eq
      exact .refl _
    · have hnil' : paths' ≠ [] := fun heq => hnil (heq ▸ h).eq_nil
      rwa [if_neg hnil, if_neg hnil']
  have hsame := sameFindings_report files config.severity hroots
  rw [run_eq_printed hconfig, run_eq_printed hconfig]
  exact ⟨_, _, hsame, rfl, rfl, hsame.interchangeable format colors options.quiet⟩

theorem arguments_interchangeable_reversed :
    let paths := ["lost", "b.html", ".", "b.html", "gone"]
    let paths' := ["gone", "b.html", "b.html", ".", "lost"]
    resolveConfig twoPages none = .ok {} ∧ paths.Perm paths' ∧
      ∃ report report' : Report, SameFindings report report' ∧
        run twoPages {} false paths .json = printed .json false false report ∧
        run twoPages {} false paths' .json = printed .json false false report' ∧
        Interchangeable .json (run twoPages {} false paths .json)
          (run twoPages {} false paths' .json) := by
  intro paths paths'
  have hconfig : resolveConfig twoPages none = .ok {} := rfl
  have hperm : paths.Perm paths' := by decide
  exact ⟨hconfig, hperm, arguments_interchangeable hconfig hperm false .json⟩

end HtmlIds.Check
