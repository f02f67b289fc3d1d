import HtmlIds.Check.Color
import HtmlIds.Editor.Diagnostic
import HtmlIds.Json.Basic

namespace HtmlIds

inductive ExitCode where
  | success | diagnosticError | configError | ioError
deriving DecidableEq, Repr

namespace ExitCode

def all : List ExitCode := [.success, .diagnosticError, .configError, .ioError]

def number : ExitCode → Nat
  | .success => 0
  | .diagnosticError => 1
  | .configError => 2
  | .ioError => 4

def display : ExitCode → String
  | .success => "success"
  | .diagnosticError => "duplicate id error"
  | .configError => "configuration error"
  | .ioError => "I/O error"

end ExitCode

structure FileReport where
  path : String
  diagnostics : List Diagnostic
deriving DecidableEq, Repr

def FileReport.count (report : FileReport) (severity : Severity) : Nat :=
  (report.diagnostics.filter (·.severity = severity)).length

structure Report where
  files : List FileReport
  failures : List String
deriving DecidableEq, Repr

namespace Report

def total (report : Report) (severity : Severity) : Nat :=
  (report.files.map (·.count severity)).foldr (· + ·) 0

def exitCode (report : Report) : ExitCode :=
  if report.failures ≠ [] then .ioError
  else if report.files.any fun file => 0 < file.count .error then .diagnosticError
  else .success

def encodePosition (p : Position) : Json :=
  Json.ofMembers [("line", .nat (p.line + 1).toNat), ("column", .nat (p.character + 1).toNat)]

def encodeDiagnostic (diagnostic : Diagnostic) : Json :=
  Json.ofMembers
    [("message", .string diagnostic.message),
     ("severity", .string diagnostic.severity.display),
     ("rule", Json.ofOption (diagnostic.code.map .string)),
     ("location", Json.ofMembers
       [("start", encodePosition diagnostic.range.start),
        ("end", encodePosition diagnostic.range.stop)])]

def encodeFile (file : FileReport) : Json :=
  let (errors, warnings) := file.diagnostics.partition (·.severity.isError)
  Json.ofMembers
    [("file", .string file.path),
     ("errors", .array (errors.map encodeDiagnostic)),
     ("warnings", .array (warnings.map encodeDiagnostic))]

def withIssues (report : Report) : List FileReport :=
  report.files.filter fun file => file.diagnostics ≠ []

def isSuccess (report : Report) : Bool :=
  report.total .error = 0 && report.failures = []

def encode (report : Report) : Json :=
  Json.ofMembers
    [("success", .bool report.isSuccess),
     ("files", .array (report.withIssues.map encodeFile)),
     ("io_errors", .array (report.failures.map .string)),
     ("stats", Json.ofMembers
       [("total_files", .nat report.files.length),
        ("files_with_issues", .nat report.withIssues.length),
        ("total_errors", .nat (report.total .error)),
        ("total_warnings", .nat (report.total .warning))])]

def severityLabel (colors : Bool) : Severity → String
  | .error => Style.boldRed.paint colors "error:"
  | .warning => Style.boldYellow.paint colors "warning:"
  | _ => Style.dim.paint colors "info:"

def styledMessage (colors : Bool) (diagnostic : Diagnostic) : String :=
  match diagnostic.severity with
  | .error => Style.red.paint colors diagnostic.message
  | .warning => Style.yellow.paint colors diagnostic.message
  | _ => diagnostic.message

def diagnosticLines (colors : Bool) (path : String) (diagnostic : Diagnostic) : String :=
  let start := diagnostic.range.start
  "\n" ++ path ++ ":" ++ start.display ++ ": " ++ severityLabel colors diagnostic.severity ++ " " ++
    styledMessage colors diagnostic ++ "\n" ++
    match diagnostic.code with
    | none => ""
    | some rule =>
      "  " ++ Style.dim.paint colors "rule" ++ ": " ++ Style.dim.paint colors rule ++ "\n"

def summary (report : Report) (colors : Bool) : String :=
  let checked := toString report.files.length
  let errors := report.total .error
  let warnings := report.total .warning
  let line :=
    if errors = 0 && warnings = 0 then
      Style.boldGreen.paint colors ("✓ No duplicate ids in " ++ checked ++ " file(s)")
    else if errors = 0 then
      Style.boldYellow.paint colors
        ("✓ Checked " ++ checked ++ " file(s) with " ++ toString warnings ++ " warning(s)")
    else
      Style.red.paint colors
        ("✗ Found " ++ toString errors ++ " error(s), " ++ toString warnings ++ " warning(s) in " ++
          checked ++ " file(s)")
  "\n" ++ line ++ "\n"

def display (report : Report) (colors quiet : Bool) : String :=
  String.join (report.files.map fun file =>
    String.join (file.diagnostics.map (diagnosticLines colors file.path))) ++
  if quiet then "" else report.summary colors

def failureLine (colors : Bool) (failure : String) : String :=
  Style.red.paint colors "✗" ++ " " ++ failure ++ "\n"

def displayFailures (report : Report) (colors : Bool) : String :=
  String.join (report.failures.map (failureLine colors))

end Report

end HtmlIds
