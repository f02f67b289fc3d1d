import HtmlIds.Editor.Completion
import HtmlIds.Editor.Diagnostic
import HtmlIds.Editor.Reference

namespace HtmlIds

structure Host where
  index : Index := .empty
  members : MemberCache
  duplicateIds : RuleSeverity := default
deriving DecidableEq, Repr

namespace Host

def ofDatabase (database : Database) : Host where
  members := { database }

def rebuild (host : Host) (uri : Uri) (text : String) : Host :=
  { host with index := .build uri text }

def completions (host : Host) (text : String) (position : Position) :
    Option (List CompletionItem) × Host :=
  let (items, members) := HtmlIds.completions host.index host.members text position
  (items, { host with members })

def hover? (host : Host) (text : String) (position : Position) : Option Hover :=
  HtmlIds.hover? host.index text position

def definition? (host : Host) (text : String) (position : Position) : Option (List Location) :=
  HtmlIds.definition? host.index text position

def diagnostics (host : Host) : OrderedMap (List Diagnostic) :=
  host.index.diagnostics host.duplicateIds

def fileDiagnostics (host : Host) (uri : Uri) : List Diagnostic :=
  (host.diagnostics.find? uri).getD []

end Host

end HtmlIds
