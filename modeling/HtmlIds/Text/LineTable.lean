import HtmlIds.Text.Pieces
import HtmlIds.Text.Position
import HtmlIds.Text.Search

namespace HtmlIds

def utf16Width (c : Char) : Nat :=
  if c.toNat < 0x10000 then 1 else 2

def utf16Length (text : List Char) : Nat :=
  (text.map utf16Width).foldr (· + ·) 0

def utf8Length (text : List Char) : Nat :=
  (text.map Char.utf8Size).foldr (· + ·) 0

def splitLines (text : List Char) : List (List Char) :=
  pieces '\n' text

def stripReturn : List Char → List Char
  | [] => []
  | ['\r'] => []
  | c :: rest => c :: stripReturn rest

def takeBytes : List Char → Nat → List Char
  | [], _ => []
  | c :: rest, bytes =>
    if bytes < c.utf8Size then [] else c :: takeBytes rest (bytes - c.utf8Size)

def dropBytes : List Char → Nat → List Char
  | [], _ => []
  | c :: rest, bytes =>
    if bytes < c.utf8Size then c :: rest else dropBytes rest (bytes - c.utf8Size)

def startsAfter : List Char → Nat → List Nat
  | [], _ => []
  | c :: rest, offset =>
    if c = '\n' then (offset + c.utf8Size) :: startsAfter rest (offset + c.utf8Size)
    else startsAfter rest (offset + c.utf8Size)

structure LineTable where
  text : List Char
  lines : List (List Char)
  starts : Array Nat
deriving Repr

namespace LineTable

def ofList (text : List Char) : LineTable :=
  ⟨text, splitLines text, (0 :: startsAfter text 0).toArray⟩

def ofText (text : String) : LineTable :=
  ofList text.toList

def lineCount (table : LineTable) : Nat :=
  table.lines.length

def lineStart? (table : LineTable) (line : Nat) : Option Nat :=
  table.starts[line]?

def lineText? (table : LineTable) (line : UInt32) : Option (List Char) :=
  table.lines[line.toNat]?.map stripReturn

def lineAt (table : LineTable) (offset : Nat) : Nat :=
  match search table.starts offset with
  | .ok line => line
  | .error line => line - 1

/-- An offset inside a character counts as that character's start, one past the text as its end. -/
def positionAt (table : LineTable) (offset : Nat) : Position :=
  let before := takeBytes table.text offset
  let line := table.lineAt (utf8Length before)
  let column := utf16Length (dropBytes before (table.starts.getD line 0))
  ⟨line.toUInt32, column.toUInt32⟩

/-- The bytes of the shortest part of a line that is at least `column` UTF-16 units long. -/
def bytesBefore : List Char → Nat → Nat
  | [], _ => 0
  | c :: rest, column =>
    if column = 0 then 0 else c.utf8Size + bytesBefore rest (column - utf16Width c)

/-- A column past the end of its line counts as that end, a line past the text as the text's end. -/
def offsetAt (table : LineTable) (p : Position) : Nat :=
  match table.lineStart? p.line.toNat, table.lineText? p.line with
  | some start, some line => start + bytesBefore line p.character.toNat
  | _, _ => utf8Length table.text

end LineTable

end HtmlIds
