import HtmlIds.OrderedMap

namespace HtmlIds

/-- A number is an integer of 64 bits, signed or unsigned, or else it is kept as it is written. -/
inductive JsonNumber where
  | integer : Int → JsonNumber
  | written : List Char → JsonNumber
deriving DecidableEq, Repr

inductive Json where
  | null : Json
  | bool : Bool → Json
  | number : JsonNumber → Json
  | string : String → Json
  | array : List Json → Json
  | object : List (String × Json) → Json
deriving Repr, Inhabited

namespace Json

def ofMembers (members : List (String × Json)) : Json :=
  .object (OrderedMap.ofList members).entries

def int (value : Int) : Json :=
  .number (.integer value)

def nat (value : Nat) : Json :=
  int value

def ofOption : Option Json → Json
  | none => .null
  | some value => value

def present (members : List (String × Option Json)) : List (String × Json) :=
  members.filterMap fun (key, value) => value.map (key, ·)

def isNull : Json → Bool
  | .null => true
  | _ => false

def text? : Json → Option String
  | .string value => some value
  | _ => none

def int? : Json → Option Int
  | .number (.integer value) => some value
  | _ => none

def items? : Json → Option (List Json)
  | .array items => some items
  | _ => none

def member (value : Json) (key : String) : Json :=
  match value with
  | .object members => (members.lookup key).getD .null
  | _ => .null

def hexDigit (n : Nat) : Char :=
  if n < 10 then Char.ofNat (48 + n) else Char.ofNat (87 + n)

def escape (c : Char) : List Char :=
  if c = '"' then ['\\', '"']
  else if c = '\\' then ['\\', '\\']
  else if c = '\n' then ['\\', 'n']
  else if c = '\r' then ['\\', 'r']
  else if c = '\t' then ['\\', 't']
  else if c.toNat = 8 then ['\\', 'b']
  else if c.toNat = 12 then ['\\', 'f']
  else if c.toNat < 32 then
    ['\\', 'u', '0', '0', hexDigit (c.toNat / 16), hexDigit (c.toNat % 16)]
  else [c]

def writeString (text : String) : List Char :=
  '"' :: text.toList.flatMap escape ++ ['"']

def writeNumber : JsonNumber → List Char
  | .integer value => (toString value).toList
  | .written text => text

mutual

def write : Json → List Char
  | .null => "null".toList
  | .bool true => "true".toList
  | .bool false => "false".toList
  | .number n => writeNumber n
  | .string text => writeString text
  | .array items => '[' :: writeItems items ++ [']']
  | .object members => '{' :: writeMembers members ++ ['}']

def writeItems : List Json → List Char
  | [] => []
  | item :: rest =>
    match rest with
    | [] => write item
    | _ :: _ => write item ++ ',' :: writeItems rest

def writeMembers : List (String × Json) → List Char
  | [] => []
  | (key, value) :: rest =>
    match rest with
    | [] => writeString key ++ ':' :: write value
    | _ :: _ => writeString key ++ ':' :: write value ++ ',' :: writeMembers rest

end

def compact (value : Json) : String :=
  String.ofList value.write

def margin (depth : Nat) : List Char :=
  '\n' :: List.replicate (2 * depth) ' '

mutual

def layOut (depth : Nat) : Json → List Char
  | .array (item :: rest) =>
    '[' :: layOutItems (depth + 1) (item :: rest) ++ margin depth ++ [']']
  | .object (entry :: rest) =>
    '{' :: layOutMembers (depth + 1) (entry :: rest) ++ margin depth ++ ['}']
  | value => write value

def layOutItems (depth : Nat) : List Json → List Char
  | [] => []
  | item :: rest =>
    margin depth ++ layOut depth item ++
      match rest with
      | [] => []
      | _ :: _ => ',' :: layOutItems depth rest

def layOutMembers (depth : Nat) : List (String × Json) → List Char
  | [] => []
  | (key, value) :: rest =>
    margin depth ++ writeString key ++ ':' :: ' ' :: layOut depth value ++
      match rest with
      | [] => []
      | _ :: _ => ',' :: layOutMembers depth rest

end

def indented (value : Json) : String :=
  String.ofList (value.layOut 0)

end Json

end HtmlIds
