import HtmlIds.Text.Blank
import HtmlIds.Text.LineTable

namespace HtmlIds

def isWordChar (c : Char) : Bool :=
  c.isAlphanum || c == '_' || c == '$'

def isWordStart (c : Char) : Bool :=
  isWordChar c && !c.isDigit

structure Word where
  text : String
  start : UInt32
  stop : UInt32
deriving DecidableEq, Repr

/-- The words of a text that begins at byte `offset`, after `skip` characters are passed over. -/
def scanWords : List Char → Nat → Nat → List (List Char × Span)
  | [], _, _ => []
  | c :: rest, offset, skip + 1 => scanWords rest (offset + c.utf8Size) skip
  | c :: rest, offset, 0 =>
    if isWordStart c then
      let word := c :: rest.takeWhile isWordChar
      (word, ⟨offset, offset + utf8Length word⟩) ::
        scanWords rest (offset + c.utf8Size) (word.length - 1)
    else scanWords rest (offset + c.utf8Size) 0

def columnOffset (line : List Char) (column : UInt32) : Nat :=
  (LineTable.ofList line).offsetAt ⟨0, column⟩

def textBeforeCursor (line : List Char) (column : UInt32) : List Char :=
  takeBytes line (columnOffset line column)

def wordAt? (line : List Char) (column : UInt32) : Option Word :=
  let cursor := columnOffset line column
  let table := LineTable.ofList line
  ((scanWords line 0 0).find? fun (_, span) => span.start ≤ cursor && cursor ≤ span.stop).map
    fun (word, span) =>
      ⟨String.ofList word, (table.positionAt span.start).character,
        (table.positionAt span.stop).character⟩

def identifierBeforeDot? (before : List Char) : Option String :=
  let started := before.reverse.takeWhile isWordChar
  let startsWell := match started.getLast? with
    | none => true
    | some c => isWordStart c
  match before.reverse.drop started.length with
  | '.' :: rest =>
    let base := (rest.takeWhile isWordChar).reverse.dropWhile Char.isDigit
    if startsWell && base ≠ [] then some (String.ofList base) else none
  | _ => none

def isMemberAccess (before : List Char) : Bool :=
  ((before.reverse.dropWhile isWordChar).dropWhile isBlank).head? == some '.'

end HtmlIds
