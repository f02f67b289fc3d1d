import HtmlIds.Json.Reading

namespace HtmlIds

namespace Yaml

/-- A cursor is `fresh` while only blanks stand before it on its line, and `spaced` when a blank or
the start of the line stands right before it. The anchors that were set before it go with it. -/
structure Cursor where
  rest : List Char
  column : Nat := 0
  fresh : Bool := true
  spaced : Bool := true
  anchors : List (String × Reading) := []
deriving Repr, Inhabited

def unifyBreaks : List Char → List Char
  | [] => []
  | '\r' :: rest =>
    match rest with
    | '\n' :: _ => unifyBreaks rest
    | _ => '\n' :: unifyBreaks rest
  | c :: rest => c :: unifyBreaks rest

def isSpace (c : Char) : Bool :=
  c == ' ' || c == '\t'

def endsWord : List Char → Bool
  | [] => true
  | c :: _ => isSpace c || c == '\n'

def isFlowIndicator (c : Char) : Bool :=
  c ∈ [',', '[', ']', '{', '}']

def startsWithMarker : List Char → Bool
  | '-' :: '-' :: '-' :: rest => endsWord rest
  | '.' :: '.' :: '.' :: rest => endsWord rest
  | _ => false

namespace Cursor

def advance (cursor : Cursor) (size : Nat) : Cursor :=
  { cursor with
    rest := cursor.rest.drop size
    column := cursor.column + size
    fresh := cursor.fresh && size = 0
    spaced := if size = 0 then cursor.spaced else (cursor.rest[size - 1]?.map isSpace).getD false }

def skipSpaces (cursor : Cursor) : Cursor :=
  cursor.advance (cursor.rest.takeWhile isSpace).length

/-- Passes over blanks, line breaks and comments; nothing is left of a comment but its line break.
A tab that indents what follows, within the columns up to `indent`, is refused. -/
def gap (indent : Int) (cursor : Cursor) (inComment tabbed : Bool) : List Char → Option Cursor
  | [] => some { cursor with rest := [] }
  | c :: rest =>
    if c = '\n' then
      gap indent { cursor with column := 0, fresh := true, spaced := true } false false rest
    else
      let next := { cursor with column := cursor.column + 1 }
      if inComment then gap indent next true tabbed rest
      else if isSpace c then
        let indents := c = '\t' && cursor.fresh && (cursor.column : Int) ≤ indent
        gap indent { next with spaced := true } false (tabbed || indents) rest
      else if c = '#' && cursor.spaced then gap indent next true tabbed rest
      else if tabbed then none
      else some { cursor with rest := c :: rest }

def skipGap (cursor : Cursor) (indent : Int) : Option Cursor :=
  gap indent cursor false false cursor.rest

def isOver (cursor : Cursor) : Bool :=
  cursor.rest.isEmpty || (cursor.column == 0 && cursor.fresh && startsWithMarker cursor.rest)

def atIndicator (cursor : Cursor) (indicator : Char) : Bool :=
  match cursor.rest with
  | [] => false
  | c :: rest => c == indicator && endsWord rest

end Cursor

end Yaml

end HtmlIds
