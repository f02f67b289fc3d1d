import HtmlIds.Check.Arguments
import HtmlIds.Check.Files
import HtmlIds.Check.Report
import HtmlIds.Config.Format
import HtmlIds.Editor.Host

namespace HtmlIds

namespace Check

structure Outcome where
  exitCode : ExitCode
  output : String := ""
  errors : String := ""
deriving DecidableEq, Repr

def diagnostics (uri : Uri) (text : String) (rule : RuleSeverity) : List Diagnostic :=
  let host := { Host.ofDatabase .empty with duplicateIds := rule }
  (host.rebuild uri text).fileDiagnostics uri

def checkFile (files : FileSystem) (rule : RuleSeverity) (path : String) :
    Except FileError FileReport :=
  match files.readText path with
  | .error problem => .error problem
  | .ok text =>
    let uri := Uri.ofPath (Path.absolute files.workingDirectory path)
    .ok ⟨path, diagnostics uri text rule⟩

def resolveConfig (files : FileSystem) (path : Option String) : Except ConfigError Config :=
  match path.or (Config.find? files files.workingDirectory) with
  | none => .ok {}
  | some path => Config.load files path

def report (files : FileSystem) (rule : RuleSeverity) (paths : List String) : Report :=
  let inputs := Inputs.ofRoots files paths
  let results := inputs.files.map fun path => (path, checkFile files rule path)
  { files := (results.filterMap fun (_, result) => result.toOption).mergeSort
      fun a b => a.path ≤ b.path
    failures := inputs.failures ++ results.filterMap fun (path, result) =>
      match result with
      | .ok _ => none
      | .error problem => some (path ++ ": " ++ problem.message) }

def fatal (format : ReportFormat) (colors : Bool) (message : String) : String :=
  match format with
  | .human => Report.failureLine colors message
  | .json => (Json.ofMembers [("error", .string message)]).compact ++ "\n"

def run (files : FileSystem) (options : Options) (colors : Bool) (paths : List String)
    (format : ReportFormat) : Outcome :=
  match resolveConfig files options.config with
  | .error problem =>
    { exitCode := .configError
      errors := fatal format colors (": ".intercalate problem.chain) }
  | .ok config =>
    let report := report files config.severity (if paths = [] then ["."] else paths)
    match format with
    | .human =>
      { exitCode := report.exitCode
        output := report.display colors options.quiet
        errors := report.displayFailures colors }
    | .json => { exitCode := report.exitCode, output := report.encode.indented ++ "\n" }

end Check

end HtmlIds
