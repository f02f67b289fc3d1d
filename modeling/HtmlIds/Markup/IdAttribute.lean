import HtmlIds.Text.Blank
import HtmlIds.Text.LineTable

namespace HtmlIds

structure IdDeclaration where
  tag : String
  value : String
  span : Span
deriving DecidableEq, Repr

def isNameChar (c : Char) : Bool :=
  c.isAlphanum || c == '_'

def isQuote (c : Char) : Bool :=
  c == '"' || c == '\''

def idValue? : List Char → Option (List Char)
  | i :: d :: '=' :: quote :: rest =>
    if i.toLower = 'i' && d.toLower = 'd' && isQuote quote then
      let value := rest.takeWhile (!isQuote ·)
      if value ≠ [] && value.length < rest.length then some value else none
    else none
  | _ => none

def lastIdAttribute : List Char → Nat → Option (Nat × List Char)
  | [], _ => none
  | c :: rest, offset =>
    if c = '>' then none
    else
      let next := offset + c.utf8Size
      match lastIdAttribute rest next with
      | some found => some found
      | none => if isBlank c then (idValue? rest).map (next + 4, ·) else none

/-- Reads a text that begins at byte `offset`, passing over `skip` characters first. Tags that open
before the `>` of an earlier tag share it and are passed over. -/
def scanIds : List Char → Nat → Nat → List IdDeclaration
  | [], _, _ => []
  | c :: rest, offset, skip + 1 => scanIds rest (offset + c.utf8Size) skip
  | c :: rest, offset, 0 =>
    let name := rest.takeWhile isNameChar
    if c = '<' && name ≠ [] then
      let attributes := rest.drop name.length
      if '>' ∈ attributes then
        let later := scanIds rest (offset + 1) (name.length + attributes.idxOf '>' + 1)
        match lastIdAttribute attributes (offset + 1 + utf8Length name) with
        | none => later
        | some (start, value) =>
          ⟨String.ofList (asciiLower name), String.ofList value, start, start + utf8Length value⟩ :: later
      else []
    else scanIds rest (offset + c.utf8Size) 0

def idDeclarations (text : String) : List IdDeclaration :=
  scanIds text.toList 0 0

end HtmlIds
