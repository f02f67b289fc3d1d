import HtmlIds.Proofs.Check.Concurrence
import HtmlIds.Proofs.Editor.DuplicateIds

namespace HtmlIds

theorem Json.member_ofMembers (members : List (String × Json)) (key : String) :
    (ofMembers members).member key = (OrderedMap.valuesOf key members).getLast?.getD .null := by
  rw [← OrderedMap.find?_ofList]
  rfl

namespace Check

def itemTotal (key : String) (entries : List Json) : Nat :=
  (entries.map fun entry => ((entry.member key).items?.getD []).length).foldr (· + ·) 0

structure ListsDiagnostics (file : FileReport) (entry : Json) : Prop where
  path : entry.member "file" = .string file.path
  diagnostics : ∃ errors warnings : List Diagnostic,
    entry.member "errors" = .array (errors.map Report.encodeDiagnostic) ∧
    entry.member "warnings" = .array (warnings.map Report.encodeDiagnostic) ∧
    errors = file.diagnostics.filter (·.severity = .error) ∧
    warnings = file.diagnostics.filter (·.severity = .warning) ∧
    (errors ++ warnings).Perm file.diagnostics

structure Coherent (report : Report) (entries : List Json) : Prop where
  listed : report.encode.member "files" = .array entries
  files : List.Forall₂ ListsDiagnostics (report.files.filter (·.diagnostics ≠ [])) entries
  success : ∃ verdict, report.encode.member "success" = .bool verdict ∧
    (verdict = true ↔ report.exitCode = .success)
  ioError : report.exitCode = .ioError ↔ report.failures ≠ []
  diagnosticError : report.exitCode = .diagnosticError ↔
    report.failures = [] ∧ 0 < itemTotal "errors" entries
  noError : report.exitCode = .success ↔ report.failures = [] ∧ itemTotal "errors" entries = 0
  totalErrors : (report.encode.member "stats").member "total_errors" =
    .nat (itemTotal "errors" entries)
  totalWarnings : (report.encode.member "stats").member "total_warnings" =
    .nat (itemTotal "warnings" entries)
  filesWithIssues : (report.encode.member "stats").member "files_with_issues" = .nat entries.length
  totalFiles : (report.encode.member "stats").member "total_files" = .nat report.files.length

theorem severity_of_mem_diagnostics {uri : Uri} {text : String} {rule : RuleSeverity}
    {diagnostic : Diagnostic} (h : diagnostic ∈ diagnostics uri text rule) :
    rule.severity? = some diagnostic.severity := by
  have hdiagnostics : diagnostics uri text rule =
      (((Index.build uri text).diagnostics rule).find? uri).getD [] := rfl
  rw [hdiagnostics] at h
  cases hrule : rule.severity? with
  | none =>
      rw [Index.diagnostics, hrule] at h
      cases h
  | some severity =>
      rw [Index.getD_find?_diagnostics_build hrule, Index.reports] at h
      obtain ⟨d, -, rfl⟩ := List.mem_map.1 h
      rfl

theorem severity_cases {rule : RuleSeverity} {severity : Severity}
    (h : rule.severity? = some severity) : severity = .error ∨ severity = .warning := by
  cases rule with
  | off => cases h
  | warn => exact .inr (Option.some.inj h).symm
  | error => exact .inl (Option.some.inj h).symm

def Graded (file : FileReport) : Prop :=
  ∀ diagnostic ∈ file.diagnostics, diagnostic.severity = .error ∨ diagnostic.severity = .warning

theorem graded_of_checkFile {files : FileSystem} {rule : RuleSeverity} {path : String}
    {file : FileReport} (h : checkFile files rule path = .ok file) : Graded file := by
  unfold checkFile at h
  split at h
  · cases h
  · obtain rfl := Except.ok.inj h
    exact fun diagnostic hmem => severity_cases (severity_of_mem_diagnostics hmem)

variable {file : FileReport} {report : Report}

theorem encodeFile_eq (file : FileReport) : Report.encodeFile file =
    Json.ofMembers
      [("file", .string file.path),
       ("errors", .array ((file.diagnostics.filter (·.severity.isError)).map Report.encodeDiagnostic)),
       ("warnings",
        .array ((file.diagnostics.filter (!·.severity.isError)).map Report.encodeDiagnostic))] := by
  rw [Report.encodeFile, List.partition_eq_filter_filter]
  rfl

theorem member_encodeFile (file : FileReport) :
    (Report.encodeFile file).member "file" = .string file.path ∧
    (Report.encodeFile file).member "errors" =
      .array ((file.diagnostics.filter (·.severity.isError)).map Report.encodeDiagnostic) ∧
    (Report.encodeFile file).member "warnings" =
      .array ((file.diagnostics.filter (!·.severity.isError)).map Report.encodeDiagnostic) := by
  simp [encodeFile_eq, Json.member_ofMembers, OrderedMap.valuesOf]

theorem isError_iff {severity : Severity} : severity.isError = true ↔ severity = .error := by
  cases severity <;> decide

theorem filter_isError (diagnostics : List Diagnostic) :
    diagnostics.filter (·.severity.isError) = diagnostics.filter (·.severity = .error) :=
  List.filter_congr fun diagnostic _ => by
    rw [Bool.eq_iff_iff, isError_iff, decide_eq_true_iff]

theorem Graded.filter_not_isError (h : Graded file) :
    file.diagnostics.filter (!·.severity.isError) =
      file.diagnostics.filter (·.severity = .warning) :=
  List.filter_congr fun diagnostic hmem => by
    rcases h diagnostic hmem with hseverity | hseverity <;> rw [hseverity] <;> rfl

theorem Graded.listsDiagnostics (h : Graded file) :
    ListsDiagnostics file (Report.encodeFile file) := by
  obtain ⟨hpath, herrors, hwarnings⟩ := member_encodeFile file
  refine ⟨hpath, _, _, herrors, hwarnings, filter_isError _, h.filter_not_isError, ?_⟩
  exact List.filter_append_perm _ _

theorem length_errors (file : FileReport) :
    (((Report.encodeFile file).member "errors").items?.getD []).length = file.count .error := by
  rw [(member_encodeFile file).2.1, filter_isError]
  exact List.length_map _

theorem Graded.length_warnings (h : Graded file) :
    (((Report.encodeFile file).member "warnings").items?.getD []).length = file.count .warning := by
  rw [(member_encodeFile file).2.2, h.filter_not_isError]
  exact List.length_map _

theorem total_eq_withIssues (report : Report) (severity : Severity) :
    report.total severity = (report.withIssues.map (·.count severity)).foldr (· + ·) 0 := by
  rw [Report.total, Report.withIssues]
  induction report.files with
  | nil => rfl
  | cons file rest ih =>
      by_cases hnil : file.diagnostics = []
      · have hcount : file.count severity = 0 := by rw [FileReport.count, hnil]; rfl
        rw [List.filter_cons_of_neg (by simp [hnil]), ← ih, List.map_cons, List.foldr_cons, hcount,
          Nat.zero_add]
      · rw [List.filter_cons_of_pos (by simp [hnil]), List.map_cons, List.map_cons, List.foldr_cons,
          List.foldr_cons, ih]

theorem total_pos_iff {severity : Severity} : 0 < report.total severity ↔
    ∃ file ∈ report.files, 0 < file.count severity := by
  rw [Report.total]
  induction report.files with
  | nil => simp
  | cons file rest ih =>
      rw [List.exists_mem_cons_iff, ← ih, List.map_cons, List.foldr_cons]
      omega

theorem itemTotal_encodeFile {key : String} {severity : Severity}
    (h : ∀ file ∈ report.withIssues,
      (((Report.encodeFile file).member key).items?.getD []).length = file.count severity) :
    itemTotal key (report.withIssues.map Report.encodeFile) = report.total severity := by
  rw [itemTotal, List.map_map, total_eq_withIssues]
  exact congrArg (List.foldr (· + ·) 0) (List.map_congr_left h)

theorem member_encode (report : Report) :
    report.encode.member "success" = .bool report.isSuccess ∧
    report.encode.member "files" = .array (report.withIssues.map Report.encodeFile) ∧
    report.encode.member "io_errors" = .array (report.failures.map .string) := by
  simp [Report.encode, Json.member_ofMembers, OrderedMap.valuesOf]

theorem member_stats (report : Report) :
    let stats := report.encode.member "stats"
    stats.member "total_files" = .nat report.files.length ∧
    stats.member "files_with_issues" = .nat report.withIssues.length ∧
    stats.member "total_errors" = .nat (report.total .error) ∧
    stats.member "total_warnings" = .nat (report.total .warning) := by
  simp [Report.encode, Json.member_ofMembers, OrderedMap.valuesOf]

theorem exitCode_cases (report : Report) :
    report.failures ≠ [] ∧ report.exitCode = .ioError ∨
    report.failures = [] ∧ 0 < report.total .error ∧ report.exitCode = .diagnosticError ∨
    report.failures = [] ∧ report.total .error = 0 ∧ report.exitCode = .success := by
  have hany : (report.files.any fun file => 0 < file.count .error) = true ↔
      0 < report.total .error := by
    simp [total_pos_iff]
  by_cases hfailures : report.failures = []
  · by_cases herrors : 0 < report.total .error
    · refine .inr (.inl ⟨hfailures, herrors, ?_⟩)
      rw [Report.exitCode, if_neg (not_not_intro hfailures), if_pos (hany.2 herrors)]
    · refine .inr (.inr ⟨hfailures, Nat.eq_zero_of_not_pos herrors, ?_⟩)
      rw [Report.exitCode, if_neg (not_not_intro hfailures), if_neg (mt hany.1 herrors)]
  · exact .inl ⟨hfailures, if_pos hfailures⟩

theorem exitCode_ioError_iff : report.exitCode = .ioError ↔ report.failures ≠ [] := by
  grind [exitCode_cases report]

theorem exitCode_diagnosticError_iff : report.exitCode = .diagnosticError ↔
    report.failures = [] ∧ 0 < report.total .error := by
  grind [exitCode_cases report]

theorem exitCode_success_iff : report.exitCode = .success ↔
    report.failures = [] ∧ report.total .error = 0 := by
  grind [exitCode_cases report]

theorem isSuccess_iff : report.isSuccess = true ↔ report.exitCode = .success := by
  rw [Report.isSuccess, Bool.and_eq_true, decide_eq_true_iff, decide_eq_true_iff, and_comm,
    exitCode_success_iff]

def twoPages : FileSystem where
  root := .directory
    [("a.html", .file "<p id=\"x\"><p id=\"x\">".toUTF8), ("b.html", .file "<p id=\"x\">".toUTF8)]
  workingDirectory := "/"

end Check

end HtmlIds
