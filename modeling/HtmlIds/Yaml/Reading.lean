import HtmlIds.Yaml.Scalar

namespace HtmlIds

namespace Yaml

structure Node where
  value : Reading
  key : Option String := none
  plain : Bool := false
deriving Repr, Inhabited

def Node.empty : Node := ⟨.null, some "", true⟩

structure Parsed where
  node : Node
  next : Option Cursor
deriving Repr, Inhabited

def wrong : Stop := .both .malformed

def Parsed.stopped : Parsed := ⟨⟨.stopped wrong, none, false⟩, none⟩

def nullTexts : List String := ["", "~", "null", "Null", "NULL"]

def Node.ofPlain (text : String) : Node :=
  ⟨if nullTexts.contains text then .null else .string text, some text, true⟩

def Node.ofQuoted (text : List Char) : Node :=
  ⟨.string (String.ofList text), some (String.ofList text), false⟩

inductive Tag where
  | text | null | noText | custom
deriving DecidableEq, Repr

def Tag.ofName (name : String) : Tag :=
  if name = "" || name = "!str" then .text
  else if name = "!null" then .null
  else if ["!int", "!float", "!bool", "!binary", "!timestamp", "!seq", "!map"].contains name then
    .noText
  else .custom

structure Properties where
  anchor : Option String := none
  tag : Option Tag := none
deriving DecidableEq, Repr

def isNameEnd (c : Char) : Bool :=
  isSpace c || c == '\n' || isFlowIndicator c

def properties (found : Properties) : Nat → Cursor → Properties × Cursor
  | 0, cursor => (found, cursor)
  | fuel + 1, cursor =>
    let word := cursor.rest.takeWhile (!isNameEnd ·)
    let after := (cursor.advance word.length).skipSpaces
    match word with
    | '&' :: name => properties { found with anchor := some (String.ofList name) } fuel after
    | '!' :: tag =>
      properties { found with tag := some (.ofName (String.ofList tag)) } fuel after
    | _ => (found, cursor)

def Node.tagged (node : Node) (tag : Tag) : Node :=
  match tag, node.value, node.key with
  | .text, .null, some text => { node with value := .string text }
  | .null, _, some _ => { node with value := .null }
  | .noText, .string _, _ => { node with value := .unreadable, key := none }
  | _, _, _ => node

def Parsed.attach (parsed : Parsed) (found : Properties) : Parsed :=
  let node := (found.tag.map parsed.node.tagged).getD parsed.node
  match found.anchor, parsed.next with
  | some name, some cursor =>
    ⟨node, some { cursor with anchors := (name, node.value) :: cursor.anchors }⟩
  | _, next => ⟨node, next⟩

def mergedEntries : Reading → Option (List (Option String × Reading))
  | .null => some []
  | .object entries none => some entries
  | .array items none =>
    (items.mapM fun
      | Reading.object entries none => some entries
      | _ => none).map List.flatten
  | _ => none

def hasKey (entries : List (Option String × Reading)) (key : Option String) : Bool :=
  key.isSome && entries.any fun entry => entry.1 == key

def withMerged (entries merged : List (Option String × Reading)) :
    List (Option String × Reading) :=
  merged.foldl (fun all entry => if hasKey all entry.1 then all else all ++ [entry]) entries

def addEntry (entries merged : List (Option String × Reading)) (key : Node) (value : Reading) :
    Option (List (Option String × Reading) × List (Option String × Reading)) :=
  if key.plain && key.key == some "<<" then
    (mergedEntries value).map fun more => (entries, merged ++ more)
  else if hasKey entries key.key then none
  else some ((key.key, value) :: entries, merged)

def mappingOf (entries merged : List (Option String × Reading)) (cursor : Cursor) : Parsed :=
  ⟨⟨.object (withMerged entries.reverse merged) none, none, false⟩, some cursor⟩

def brokenMapping (entries : List (Option String × Reading)) : Parsed :=
  ⟨⟨.object entries.reverse (some wrong), none, false⟩, none⟩

def sequenceOf (items : List Reading) (cursor : Cursor) : Parsed :=
  ⟨⟨.array items.reverse none, none, false⟩, some cursor⟩

def brokenSequence (items : List Reading) : Parsed :=
  ⟨⟨.array items.reverse (some wrong), none, false⟩, none⟩

def Cursor.skipFlowGap (cursor : Cursor) (indent : Int) : Option Cursor :=
  match cursor.skipGap (-1) with
  | none => none
  | some next =>
    if next.isOver || (next.fresh && (next.column : Int) < indent) then none else some next

def Cursor.atFlowColon (cursor : Cursor) (key : Node) : Bool :=
  match cursor.rest with
  | ':' :: rest =>
    endsWord rest || (rest.head?.map isFlowIndicator).getD false || !key.plain
  | _ => false

def scalar (indent : Int) (inFlow : Bool) (cursor : Cursor) : Parsed :=
  match cursor.rest with
  | '*' :: rest =>
    let name := rest.takeWhile (!isNameEnd ·)
    match cursor.anchors.lookup (String.ofList name) with
    | none => .stopped
    | some value =>
      let key := match value with
        | .string text => some text
        | .null => some ""
        | _ => none
      ⟨⟨value, key, false⟩, some (cursor.advance (name.length + 1))⟩
  | c :: _ =>
    if c = '"' || c = '\'' then
      match quoted? (if inFlow then indent - 1 else indent) cursor with
      | none => .stopped
      | some (text, next) => ⟨.ofQuoted text, some next⟩
    else if startsPlain inFlow cursor.rest && !(inFlow && (cursor.column : Int) ≤ indent) then
      let (lines, next) := plainLines indent inFlow cursor.rest.length cursor
      ⟨.ofPlain (String.ofList (foldLines lines 0)), some next⟩
    else .stopped
  | [] => .stopped

mutual

def flowContent : Nat → Int → Bool → Cursor → Parsed
  | 0, _, _, _ => .stopped
  | fuel + 1, indent, inFlow, cursor =>
    match cursor.rest with
    | '[' :: _ => flowItems fuel indent [] (cursor.advance 1)
    | '{' :: _ => flowEntries fuel indent [] [] (cursor.advance 1)
    | _ => scalar indent inFlow cursor

def flowNode : Nat → Int → Cursor → Parsed
  | 0, _, _ => .stopped
  | fuel + 1, indent, cursor =>
    let (found, cursor) := properties {} 2 cursor
    match cursor.skipFlowGap indent with
    | none => .stopped
    | some cursor =>
      match cursor.rest with
      | [] => .stopped
      | c :: _ =>
        if c = ',' || c = ']' || c = '}' || cursor.atFlowColon .empty then
          Parsed.attach ⟨.empty, some cursor⟩ found
        else (flowContent fuel indent true cursor).attach found

def flowValue : Nat → Int → Node → Cursor → Parsed
  | 0, _, _, _ => .stopped
  | fuel + 1, indent, key, cursor =>
    match cursor.skipFlowGap indent with
    | none => .stopped
    | some cursor =>
      if cursor.atFlowColon key then
        match (cursor.advance 1).skipFlowGap indent with
        | none => .stopped
        | some cursor => flowNode fuel indent cursor
      else ⟨.empty, some cursor⟩

def flowEntries : Nat → Int → List (Option String × Reading) → List (Option String × Reading) →
    Cursor → Parsed
  | 0, _, entries, _, _ => brokenMapping entries
  | fuel + 1, indent, entries, merged, cursor =>
    match cursor.skipFlowGap indent with
    | none => brokenMapping entries
    | some cursor =>
      match cursor.rest with
      | '}' :: _ => mappingOf entries merged (cursor.advance 1)
      | ',' :: _ | ']' :: _ => brokenMapping entries
      | _ =>
        let start := if cursor.atIndicator '?' then (cursor.advance 1).skipSpaces else cursor
        let key := flowNode fuel indent start
        match key.next with
        | none => brokenMapping entries
        | some next =>
          if hasKey entries key.node.key then brokenMapping entries
          else
            let value := flowValue fuel indent key.node next
            match value.next with
            | none => brokenMapping ((key.node.key, value.node.value) :: entries)
            | some next =>
              match addEntry entries merged key.node value.node.value, next.skipFlowGap indent with
              | some (entries, merged), some next =>
                match next.rest with
                | ',' :: _ => flowEntries fuel indent entries merged (next.advance 1)
                | '}' :: _ => mappingOf entries merged (next.advance 1)
                | _ => brokenMapping entries
              | some (entries, _), none => brokenMapping entries
              | none, _ => brokenMapping entries

def flowItems : Nat → Int → List Reading → Cursor → Parsed
  | 0, _, items, _ => brokenSequence items
  | fuel + 1, indent, items, cursor =>
    match cursor.skipFlowGap indent with
    | none => brokenSequence items
    | some cursor =>
      match cursor.rest with
      | ']' :: _ => sequenceOf items (cursor.advance 1)
      | ',' :: _ | '}' :: _ => brokenSequence items
      | _ =>
        let explicit := cursor.atIndicator '?'
        let start := if explicit then (cursor.advance 1).skipSpaces else cursor
        let key := flowNode fuel indent start
        match key.next.bind (·.skipFlowGap indent) with
        | none => brokenSequence (key.node.value :: items)
        | some next =>
          let value := flowValue fuel indent key.node next
          let item :=
            if explicit || next.atFlowColon key.node then
              .object [(key.node.key, value.node.value)] none
            else key.node.value
          match value.next.bind (·.skipFlowGap indent) with
          | none => brokenSequence (item :: items)
          | some next =>
            match next.rest with
            | ',' :: _ => flowItems fuel indent (item :: items) (next.advance 1)
            | ']' :: _ => sequenceOf (item :: items) (next.advance 1)
            | _ => brokenSequence (item :: items)

end

/-- Where a node of a block stands: the column of the block around it, whether a collection may
begin on the line that is read, and whether a sequence may stand in the column of the block itself.
-/
structure Surroundings where
  indent : Int
  opens : Bool
  sharesColumn : Bool := false
deriving DecidableEq, Repr

def Surroundings.excludes (around : Surroundings) (cursor : Cursor) : Bool :=
  cursor.isOver ||
    (cursor.fresh && (cursor.column : Int) ≤ around.indent &&
      !(around.sharesColumn && (cursor.column : Int) = around.indent && cursor.atIndicator '-'))

def Cursor.atKeyEnd (cursor : Cursor) : Bool :=
  cursor.skipSpaces.atIndicator ':'

def Cursor.sameLine (first second : Cursor) : Bool :=
  let size := first.rest.length - second.rest.length
  !(first.rest.take size).contains '\n'

mutual

def blockNode : Nat → Surroundings → Cursor → Parsed
  | 0, _, _ => .stopped
  | fuel + 1, around, cursor =>
    match cursor.skipGap around.indent with
    | none => .stopped
    | some start =>
      let opens := around.opens || start.fresh
      if around.excludes start then ⟨.empty, some start⟩
      else
        let (found, after) := properties {} 2 start
        match after.skipGap around.indent with
        | none => .stopped
        | some cursor =>
          if found = {} then blockContent fuel { around with opens } start start
          else if around.excludes cursor then Parsed.attach ⟨.empty, some cursor⟩ found
          else if cursor.fresh then
            (blockContent fuel { around with opens := true } cursor cursor).attach found
          else blockContent fuel { around with opens } start cursor

def blockContent : Nat → Surroundings → Cursor → Cursor → Parsed
  | 0, _, _, _ => .stopped
  | fuel + 1, around, start, cursor =>
    let found := (properties {} 2 start).1
    if cursor.atIndicator '-' then
      if around.opens then blockItems fuel cursor.column [] cursor else .stopped
    else if cursor.atIndicator '?' || cursor.atIndicator ':' then
      if around.opens then blockEntries fuel start.column [] [] start else .stopped
    else if cursor.rest.head? = some '|' || cursor.rest.head? = some '>' then
      match block? around.indent cursor with
      | none => .stopped
      | some (text, next) => Parsed.attach ⟨.ofQuoted text, some next⟩ found
    else
      let content := flowContent fuel around.indent false cursor
      match content.next with
      | none => content
      | some next =>
        if next.atKeyEnd then
          if around.opens && start.sameLine next then blockEntries fuel start.column [] [] start
          else .stopped
        else content.attach (if start.rest.length = cursor.rest.length then {} else found)

def blockEntries : Nat → Nat → List (Option String × Reading) → List (Option String × Reading) →
    Cursor → Parsed
  | 0, _, entries, _, _ => brokenMapping entries
  | fuel + 1, column, entries, merged, cursor =>
    let explicit := cursor.atIndicator '?'
    let key :=
      if explicit then blockNode fuel { indent := column, opens := true } (cursor.advance 1)
      else
        let (found, start) := properties {} 2 cursor
        if start.atIndicator ':' then Parsed.attach ⟨.empty, some start⟩ found
        else
          let content := (flowContent fuel column false start).attach found
          match content.next with
          | none => content
          | some next =>
            if next.atKeyEnd && start.sameLine next then ⟨content.node, some next.skipSpaces⟩
            else ⟨content.node, none⟩
    match key.next.bind (·.skipGap column) with
    | none => brokenMapping entries
    | some next =>
      if hasKey entries key.node.key then brokenMapping entries
      else
        let value :=
          if !explicit then
            blockNode fuel { indent := column, opens := false, sharesColumn := true } (next.advance 1)
          else if next.fresh && next.column = column && next.atIndicator ':' then
            blockNode fuel { indent := column, opens := true } (next.advance 1)
          else ⟨.empty, some next⟩
        match value.next with
        | none => brokenMapping ((key.node.key, value.node.value) :: entries)
        | some next =>
          match addEntry entries merged key.node value.node.value, next.skipGap column with
          | none, _ => brokenMapping entries
          | some (entries, _), none => brokenMapping entries
          | some (entries, merged), some next =>
            if next.isOver || (next.fresh && next.column < column) then
              mappingOf entries merged next
            else if next.fresh && next.column = column && !next.atIndicator '-' then
              blockEntries fuel column entries merged next
            else brokenMapping entries

def blockItems : Nat → Nat → List Reading → Cursor → Parsed
  | 0, _, items, _ => brokenSequence items
  | fuel + 1, column, items, cursor =>
    let item := blockNode fuel { indent := column, opens := true } (cursor.advance 1)
    match item.next.bind (·.skipGap column) with
    | none => brokenSequence (item.node.value :: items)
    | some next =>
      if next.isOver || (next.fresh && next.column < column) then
        sequenceOf (item.node.value :: items) next
      else if next.fresh && next.column = column then
        if next.atIndicator '-' then blockItems fuel column (item.node.value :: items) next
        else sequenceOf (item.node.value :: items) next
      else brokenSequence (item.node.value :: items)

end

def skipDirectives : Nat → Cursor → Option Cursor
  | 0, _ => none
  | fuel + 1, cursor =>
    match cursor.skipGap (-1) with
    | none => none
    | some cursor =>
      if cursor.column = 0 && cursor.rest.head? = some '%' then
        let next := cursor.advance (cursor.rest.takeWhile (· != '\n')).length
        (skipDirectives fuel next).bind fun next =>
          if startsWithMarker next.rest && next.rest.head? = some '-' then some next else none
      else some cursor

def byteOrderMark : Char := Char.ofNat 0xFEFF

def trailing (cursor : Cursor) : Option Flaw :=
  match cursor.skipGap (-1) with
  | none => some .malformed
  | some next =>
    if next.rest.isEmpty then none
    else if next.isOver && next.rest.head? = some '.' then
      match (next.advance 3).skipGap (-1) with
      | some last => if last.rest.isEmpty then none else some .malformed
      | none => some .malformed
    else some .malformed

def ofText (text : List Char) : Reading.Whole :=
  let text := unifyBreaks (if text.head? = some byteOrderMark then text.drop 1 else text)
  let fuel := 4 * text.length + 8
  match skipDirectives fuel { rest := text } with
  | none => ⟨.stopped wrong, none⟩
  | some start =>
    let marked := start.isOver && start.rest.head? = some '-'
    let begin := if marked then start.advance 3 else start
    let parsed := blockNode fuel { indent := -1, opens := !marked } begin
    ⟨parsed.node.value, match parsed.next with
      | none => some .malformed
      | some next => trailing next⟩

end Yaml

end HtmlIds
