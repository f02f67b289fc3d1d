import HtmlIds.Editor.Diagnostic
import HtmlIds.Editor.Script

namespace HtmlIds

structure Hover where
  contents : String
  range : Option Range
deriving DecidableEq, Repr

structure Location where
  uri : Uri
  range : Range
deriving DecidableEq, Repr

def referenceAt? (index : Index) (text : String) (position : Position) :
    Option (Word × List Site) :=
  match (scriptLine? text position).bind fun line => wordAt? line position.character with
  | none => none
  | some word => (index.sites? word.text).map (word, ·)

def hoverText (id : String) (site : Site) (count : Nat) : String :=
  "```typescript\nconst " ++ id ++ ": " ++ site.elementType ++ "\n```\n\nHTML element: `<" ++
    site.tag ++ " id=\"" ++ id ++ "\">`" ++
    if 1 < count then
      "\n\n⚠️ **Warning:** This ID is duplicated " ++ toString count ++ " times"
    else ""

def hover? (index : Index) (text : String) (position : Position) : Option Hover :=
  match referenceAt? index text position with
  | none => none
  | some (word, sites) =>
    sites.head?.map fun site =>
      ⟨hoverText word.text site sites.length,
        some ⟨⟨position.line, word.start⟩, ⟨position.line, word.stop⟩⟩⟩

def definition? (index : Index) (text : String) (position : Position) : Option (List Location) :=
  match referenceAt? index text position with
  | none => none
  | some (word, sites) =>
    some (sites.map fun site => ⟨site.uri, Diagnostic.idRange site.position word.text⟩)

end HtmlIds
