import HtmlIds.Text.Pieces
import HtmlIds.Uri
import HtmlIds.Yaml.Cursor

namespace HtmlIds

namespace Yaml

def foldLines : List (List Char) → Nat → List Char
  | [], breaks => if breaks = 1 then [' '] else List.replicate (breaks - 1) '\n'
  | line :: rest, breaks =>
    if line = [] then
      match rest with
      | [] => if breaks = 1 then [' '] else List.replicate (breaks - 1) '\n'
      | _ :: _ => foldLines rest (breaks + 1)
    else
      let separator :=
        if breaks = 0 then [] else if breaks = 1 then [' '] else List.replicate (breaks - 1) '\n'
      separator ++ line ++ match rest with
        | [] => []
        | _ :: _ => foldLines rest 1

def startsPlain (inFlow : Bool) : List Char → Bool
  | [] => false
  | c :: rest =>
    if c = '-' || c = '?' || c = ':' then
      !endsWord rest && !(inFlow && (rest.head?.map isFlowIndicator).getD false)
    else !(c ∈ [',', '[', ']', '{', '}', '#', '&', '*', '!', '|', '>', '\'', '"', '%', '@', Char.ofNat 96])

def plainLine (inFlow : Bool) : List Char → List Char
  | [] => []
  | c :: rest =>
    let flowNext := inFlow && (rest.head?.map isFlowIndicator).getD false
    if c = '\n' || (inFlow && isFlowIndicator c) then []
    else if c = ':' && (endsWord rest || flowNext) then []
    else if isSpace c && rest.head? = some '#' then []
    else c :: plainLine inFlow rest

def trimSpaces (line : List Char) : List Char :=
  (line.reverse.dropWhile isSpace).reverse

def plainLines (indent : Int) (inFlow : Bool) : Nat → Cursor → List (List Char) × Cursor
  | 0, cursor => ([], cursor)
  | fuel + 1, cursor =>
    let part := plainLine inFlow cursor.rest
    let after := cursor.advance part.length
    let line := trimSpaces part
    let blank := after.rest.takeWhile fun c => isSpace c || c == '\n'
    let breaks := (blank.filter (· == '\n')).length
    let column := (blank.reverse.takeWhile (· != '\n')).length
    let next := after.rest.drop blank.length
    let goesOn := after.rest.head? = some '\n' && next ≠ [] && indent < column &&
      !(column = 0 && startsWithMarker next) && next.head? ≠ some '#' &&
      !(inFlow && (next.head?.map isFlowIndicator).getD false) &&
      plainLine inFlow next ≠ []
    if goesOn then
      let (more, last) := plainLines indent inFlow fuel
        { after with rest := next, column, fresh := false, spaced := true }
      (line :: (List.replicate (breaks - 1) [] ++ more), last)
    else ([line], after)

inductive QuotedChar where
  | raw : Char → QuotedChar
  | escaped : Option Char → QuotedChar
deriving DecidableEq, Repr

def QuotedChar.isBlank : QuotedChar → Bool
  | .raw c => isSpace c
  | .escaped _ => false

def QuotedChar.char? : QuotedChar → Option Char
  | .raw c => some c
  | .escaped c => c

def singleQuoted : List Char → Option (List QuotedChar × Nat)
  | [] => none
  | '\'' :: rest =>
    match rest with
    | '\'' :: rest =>
      (singleQuoted rest).map fun (text, size) => (.escaped (some '\'') :: text, size + 2)
    | _ => some ([], 1)
  | c :: rest => (singleQuoted rest).map fun (text, size) => (.raw c :: text, size + 1)

def unescape? (c : Char) : Option (Option Char) :=
  let code (n : Nat) := some (some (Char.ofNat n))
  if c = '0' then code 0
  else if c = 'a' then code 7
  else if c = 'b' then code 8
  else if c = 't' || c = '\t' then code 9
  else if c = 'n' then code 10
  else if c = 'v' then code 11
  else if c = 'f' then code 12
  else if c = 'r' then code 13
  else if c = 'e' then code 27
  else if c = 'N' then code 0x85
  else if c = '_' then code 0xA0
  else if c = 'L' then code 0x2028
  else if c = 'P' then code 0x2029
  else if c = ' ' || c = '"' || c = '/' || c = '\\' then some (some c)
  else if c = '\n' then some none
  else none

def hexSize (c : Char) : Nat :=
  if c = 'x' then 2 else if c = 'u' then 4 else if c = 'U' then 8 else 0

def hexChar? (size : Nat) (digits : List Char) : Option Char :=
  match (digits.take size).mapM Uri.hexValue? with
  | none => none
  | some values =>
    let code := values.foldl (fun n digit => 16 * n + digit) 0
    if values.length = size && (code < 0xD800 || (0xE000 ≤ code && code < 0x110000)) then
      some (Char.ofNat code)
    else none

def doubleQuoted : List Char → Nat → Option (List QuotedChar × Nat)
  | [], _ => none
  | _ :: rest, skip + 1 => (doubleQuoted rest skip).map fun (text, size) => (text, size + 1)
  | '"' :: _, 0 => some ([], 1)
  | '\\' :: rest, 0 =>
    let (char, skip) := match rest with
      | [] => (none, 0)
      | c :: digits =>
        if hexSize c = 0 then (unescape? c, 1)
        else ((hexChar? (hexSize c) digits).map some, hexSize c + 1)
    match char with
    | none => none
    | some char =>
      (doubleQuoted rest skip).map fun (text, size) => (.escaped char :: text, size + 1)
  | c :: rest, 0 => (doubleQuoted rest 0).map fun (text, size) => (.raw c :: text, size + 1)

def quotedLines : List QuotedChar → List (List QuotedChar)
  | [] => [[]]
  | c :: rest =>
    match quotedLines rest with
    | [] => [[c]]
    | line :: lines => if c = .raw '\n' then [] :: line :: lines else (c :: line) :: lines

def trimQuoted : List (List QuotedChar) → Bool → List (List QuotedChar)
  | [], _ => []
  | line :: rest, isFirst =>
    let line := if isFirst then line else line.dropWhile QuotedChar.isBlank
    let line := match rest with
      | [] => line
      | _ :: _ => (line.reverse.dropWhile QuotedChar.isBlank).reverse
    line :: trimQuoted rest false

def quotedText (contents : List QuotedChar) : List Char :=
  match trimQuoted (quotedLines contents) true with
  | [] => []
  | first :: rest =>
    let plain (line : List QuotedChar) := line.filterMap QuotedChar.char?
    plain first ++ match rest with
      | [] => []
      | _ :: _ => foldLines (rest.map plain) 1

def isIndented (indent : Int) (lines : List (List Char)) : Bool :=
  lines.all fun line =>
    let margin := (line.takeWhile isSpace).length
    margin = line.length || (indent < margin && !(margin = 0 && startsWithMarker line))

def quoted? (indent : Int) (cursor : Cursor) : Option (List Char × Cursor) :=
  let contents := match cursor.rest with
    | '\'' :: rest => singleQuoted rest
    | '"' :: rest => doubleQuoted rest 0
    | _ => none
  match contents with
  | none => none
  | some (contents, size) =>
    let lines := pieces '\n' (cursor.rest.take (size + 1))
    if isIndented indent (lines.drop 1) then
      let after := cursor.advance (size + 1)
      let column := match lines with
        | [] | [_] => after.column
        | _ :: others => (others.getLast?.map List.length).getD 0
      some (quotedText contents, { after with column })
    else none

inductive Chomping where
  | strip | clip | keep
deriving DecidableEq, Repr

structure BlockHeader where
  folded : Bool
  chomping : Chomping := .clip
  indentation : Option Nat := none
deriving DecidableEq, Repr

def blockHeader? (header : BlockHeader) : List Char → Option (BlockHeader × List Char)
  | [] => some (header, [])
  | c :: rest =>
    if c = '+' || c = '-' then
      if header.chomping = .clip then
        blockHeader? { header with chomping := if c = '+' then .keep else .strip } rest
      else none
    else if c.isDigit then
      if header.indentation.isNone && c ≠ '0' then
        blockHeader? { header with indentation := some (c.toNat - 48) } rest
      else none
    else some (header, c :: rest)

/-- The text of the lines of a block. Line breaks between two lines that do not begin with a blank
are folded; `previous` tells whether the last line with a text begins with one. -/
def layBlock (header : BlockHeader) : List (List Char) → Option Bool → Nat → List Char
  | [], previous, breaks =>
    match header.chomping, previous with
    | .keep, none => List.replicate breaks '\n'
    | .keep, some _ => List.replicate (breaks + 1) '\n'
    | .clip, some _ => ['\n']
    | _, _ => []
  | line :: rest, previous, breaks =>
    if line = [] then layBlock header rest previous (breaks + 1)
    else
      let indented := (line.head?.map isSpace).getD false
      let separator := match previous with
        | none => List.replicate breaks '\n'
        | some before =>
          if header.folded && !before && !indented then
            if breaks = 0 then [' '] else List.replicate breaks '\n'
          else List.replicate (breaks + 1) '\n'
      separator ++ line ++ layBlock header rest (some indented) 0

def spacesBefore (line : List Char) : Nat :=
  (line.takeWhile (· == ' ')).length

def isEmptyLine (line : List Char) : Bool :=
  spacesBefore line == line.length

def block? (indent : Int) (cursor : Cursor) : Option (List Char × Cursor) :=
  match cursor.rest with
  | [] => none
  | indicator :: rest =>
    match blockHeader? { folded := indicator == '>' } rest with
    | none => none
    | some (header, after) =>
      let tail := after.takeWhile (· != '\n')
      let comment := tail.dropWhile isSpace
      if comment ≠ [] && (comment.head? ≠ some '#' || comment.length = tail.length) then none
      else
        let lines := pieces '\n' (after.drop (tail.length + 1))
        let lines := if lines.getLast? = some [] then lines.dropLast else lines
        let first := lines.find? fun line => !isEmptyLine line
        let least := (indent + 1).toNat
        let margin := match header.indentation with
          | some extra => indent.toNat + extra
          | none => max least ((first.map spacesBefore).getD least)
        let belongs (line : List Char) :=
          isEmptyLine line || (margin ≤ spacesBefore line && !(margin = 0 && startsWithMarker line))
        let own := lines.takeWhile belongs
        let left := lines.drop own.length
        let leading := own.takeWhile isEmptyLine
        if leading.any fun line => margin < line.length then none
        else
          some (layBlock header (own.map (·.drop margin)) none 0,
            { cursor with rest := joinPieces '\n' left, column := 0, fresh := true, spaced := true })

end Yaml

end HtmlIds
