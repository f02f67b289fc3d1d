import HtmlIds.Index
import HtmlIds.Severity
import HtmlIds.OrderedMap

namespace HtmlIds

structure Diagnostic where
  range : Range
  severity : Severity
  message : String
  code : Option String
  source : String
deriving DecidableEq, Repr

namespace Diagnostic

def display (diagnostic : Diagnostic) : String :=
  diagnostic.range.start.display ++ "-" ++ diagnostic.range.stop.display ++ " " ++
    diagnostic.severity.display ++ ": " ++ diagnostic.message ++
    match diagnostic.code with
    | none => ""
    | some code => " [" ++ code ++ "]"

def displayList (diagnostics : List Diagnostic) : String :=
  if diagnostics = [] then "(no diagnostics)"
  else
    "\n".intercalate (diagnostics.zipIdx.map fun (diagnostic, i) =>
      "[" ++ toString (i + 1) ++ "] " ++ diagnostic.display)

def duplicateSource : String := "html-id-intellisense"

def duplicateCode : String := "duplicate-id"

def duplicateMessage (id : String) (count : Nat) : String :=
  "Duplicate id \"" ++ id ++ "\" found " ++ toString count ++ " times. IDs must be unique."

def idRange (start : Position) (id : String) : Range :=
  .onLine start (utf16Length id.toList).toUInt32

def duplicate (severity : Severity) (id : String) (count : Nat) (site : Site) : Diagnostic where
  range := idRange site.position id
  severity := severity
  message := duplicateMessage id count
  code := some duplicateCode
  source := duplicateSource

end Diagnostic

def Index.diagnostics (index : Index) (rule : RuleSeverity) : OrderedMap (List Diagnostic) :=
  match rule.severity? with
  | none => .empty
  | some severity =>
    OrderedMap.collect (index.groups.flatMap fun (id, sites) =>
      if 1 < sites.length then
        sites.map fun site => (site.uri, Diagnostic.duplicate severity id sites.length site)
      else [])

end HtmlIds
