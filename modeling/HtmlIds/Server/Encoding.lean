import HtmlIds.Editor.Completion
import HtmlIds.Editor.Reference
import HtmlIds.Json.Basic

namespace HtmlIds

namespace Encoding

def word (value : UInt32) : Json :=
  .nat value.toNat

def position (value : Position) : Json :=
  Json.ofMembers [("line", word value.line), ("character", word value.character)]

def range (value : Range) : Json :=
  Json.ofMembers [("start", position value.start), ("end", position value.stop)]

def uri? (value : Uri) : Option Json :=
  if Uri.isReference value then some (.string value) else none

def location? (value : Location) : Option Json :=
  (uri? value.uri).map fun uri => Json.ofMembers [("uri", uri), ("range", range value.range)]

def severityNumber : Severity → Nat
  | .error => 1
  | .warning => 2
  | .information => 3
  | .hint => 4

def diagnostic (value : Diagnostic) : Json :=
  Json.ofMembers (Json.present
    [("range", some (range value.range)),
     ("severity", some (.nat (severityNumber value.severity))),
     ("code", value.code.map .string),
     ("source", some (.string value.source)),
     ("message", some (.string value.message))])

def markdown (text : String) : Json :=
  Json.ofMembers [("kind", .string "markdown"), ("value", .string text)]

def hover (value : Hover) : Json :=
  Json.ofMembers (Json.present
    [("contents", some (markdown value.contents)), ("range", value.range.map range)])

def completionNumber : CompletionKind → Nat
  | .method => 2
  | .variable => 6
  | .property => 10

def completion (value : CompletionItem) : Json :=
  Json.ofMembers (Json.present
    [("label", some (.string value.label)),
     ("kind", some (.nat (completionNumber value.kind))),
     ("detail", value.detail.map .string),
     ("documentation", value.documentation.map markdown),
     ("sortText", value.sortText.map .string)])

end Encoding

end HtmlIds
