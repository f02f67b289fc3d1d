import HtmlIds.Json.Number

namespace HtmlIds

inductive Flaw where
  | malformed | truncated
deriving DecidableEq, Repr

/-- The place where a text goes wrong: the flaw for one who reads the value there, and the flaw for
one who passes over it. -/
structure Stop where
  read : Flaw
  skip : Flaw
deriving DecidableEq, Repr

def Stop.both (flaw : Flaw) : Stop :=
  ⟨flaw, flaw⟩

/-- A value as far as it was read. Containers without a `Stop` are closed; a key that names nothing,
and a token that stands for no value, can only be passed over. -/
inductive Reading where
  | null : Reading
  | bool : Bool → Reading
  | number : JsonNumber → Reading
  | string : String → Reading
  | unreadable : Reading
  | array : List Reading → Option Stop → Reading
  | object : List (Option String × Reading) → Option Stop → Reading
  | stopped : Stop → Reading
deriving Repr, Inhabited

namespace Reading

/-- A container that is still open, its finished parts in reverse order. The key of an object is the
one whose value is being read. -/
inductive Frame where
  | array : List Reading → Frame
  | object : List (Option String × Reading) → Option (Option String) → Frame
deriving Repr

/-- What a reader is doing inside a string: the characters so far in reverse order, the first half
of a surrogate pair that waits for the other, and whether the string still names a text. -/
structure Quoted where
  text : List Char := []
  high : Option Nat := none
  sound : Bool := true
deriving DecidableEq, Repr

inductive Escape where
  | none : Escape
  | backslash : Escape
  | hex : Nat → Option Nat → Escape
deriving DecidableEq, Repr

inductive NumberPart where
  | sign | zero | whole | point | fraction | mark | markSign | exponent
deriving DecidableEq, Repr

inductive Mode where
  | value : Mode
  | itemOrEnd : Mode
  | keyOrEnd : Mode
  | key : Mode
  | colon : Mode
  | after : Mode
  | string : Bool → Quoted → Escape → Mode
  | number : NumberPart → List Char → Mode
  | word : List Char → Reading → Mode
  | stopped : Stop → Mode
deriving Repr

structure State where
  nested : List Frame := []
  mode : Mode := .value
  result : Option Reading := none
deriving Repr

def isSpace (c : Char) : Bool :=
  c == ' ' || c == '\n' || c == '\t' || c == '\r'

namespace State

def start : State := {}

def stop (s : State) (flaw : Flaw) : State :=
  { s with mode := .stopped (.both flaw) }

def complete (s : State) (value : Reading) : State :=
  match s.nested with
  | [] => { s with mode := .after, result := some value }
  | .array items :: frames => { s with nested := .array (value :: items) :: frames, mode := .after }
  | .object members (some key) :: frames =>
    { s with nested := .object ((key, value) :: members) none :: frames, mode := .after }
  | .object _ none :: _ => s.stop .malformed

def beginValue (s : State) (c : Char) : State :=
  if c = '"' then { s with mode := .string false {} .none }
  else if c = '[' then { s with nested := .array [] :: s.nested, mode := .itemOrEnd }
  else if c = '{' then { s with nested := .object [] none :: s.nested, mode := .keyOrEnd }
  else if c = '-' then { s with mode := .number .sign [c] }
  else if c = '0' then { s with mode := .number .zero [c] }
  else if c.isDigit then { s with mode := .number .whole [c] }
  else if c = 'n' then { s with mode := .word "ull".toList .null }
  else if c = 't' then { s with mode := .word "rue".toList (.bool true) }
  else if c = 'f' then { s with mode := .word "alse".toList (.bool false) }
  else s.stop .malformed

def endArray (s : State) : State :=
  match s.nested with
  | .array items :: frames => { s with nested := frames }.complete (.array items.reverse none)
  | _ => s.stop .malformed

def endObject (s : State) : State :=
  match s.nested with
  | .object members none :: frames =>
    { s with nested := frames }.complete (.object members.reverse none)
  | _ => s.stop .malformed

def afterValue (s : State) (c : Char) : State :=
  match s.nested with
  | [] => s.stop .malformed
  | .array _ :: _ =>
    if c = ',' then { s with mode := .value } else if c = ']' then s.endArray else s.stop .malformed
  | .object .. :: _ =>
    if c = ',' then { s with mode := .key } else if c = '}' then s.endObject else s.stop .malformed

def endString (s : State) (isKey : Bool) (quoted : Quoted) : State :=
  let text :=
    if quoted.sound && quoted.high.isNone then some (String.ofList quoted.text.reverse) else none
  if isKey then
    match s.nested with
    | .object members _ :: frames =>
      { s with nested := .object members (some text) :: frames, mode := .colon }
    | _ => s.stop .malformed
  else
    s.complete (match text with | some text => .string text | none => .unreadable)

end State

namespace Quoted

def push (q : Quoted) (c : Char) : Quoted :=
  { text := c :: q.text, high := none, sound := q.sound && q.high.isNone }

def pushUnit (q : Quoted) (unit : Nat) : Quoted :=
  if 0xD800 ≤ unit && unit < 0xDC00 then
    { q with high := some unit, sound := q.sound && q.high.isNone }
  else if 0xDC00 ≤ unit && unit < 0xE000 then
    match q.high with
    | some high =>
      { q with
        text := Char.ofNat (0x10000 + (high - 0xD800) * 0x400 + (unit - 0xDC00)) :: q.text
        high := none }
    | none => { q with sound := false }
  else q.push (Char.ofNat unit)

end Quoted

def unescape? (c : Char) : Option Char :=
  if c = '"' then some '"'
  else if c = '\\' then some '\\'
  else if c = '/' then some '/'
  else if c = 'b' then some (Char.ofNat 8)
  else if c = 'f' then some (Char.ofNat 12)
  else if c = 'n' then some '\n'
  else if c = 'r' then some '\r'
  else if c = 't' then some '\t'
  else none

def hexValue? (c : Char) : Option Nat :=
  if c.isDigit then some (c.toNat - 48)
  else if 'a' ≤ c && c ≤ 'f' then some (c.toNat - 87)
  else if 'A' ≤ c && c ≤ 'F' then some (c.toNat - 55)
  else none

namespace State

def inString (s : State) (isKey : Bool) (quoted : Quoted) (c : Char) : Escape → State
  | .none =>
    if c = '"' then s.endString isKey quoted
    else if c = '\\' then { s with mode := .string isKey quoted .backslash }
    else if c.toNat < 32 then s.stop .malformed
    else { s with mode := .string isKey (quoted.push c) .none }
  | .backslash =>
    if c = 'u' then { s with mode := .string isKey quoted (.hex 0 (some 0)) }
    else
      match unescape? c with
      | some c => { s with mode := .string isKey (quoted.push c) .none }
      | none => s.stop .malformed
  | .hex size value =>
    let value := value.bind fun high => (hexValue? c).map (16 * high + ·)
    if size + c.utf8Size < 4 then
      { s with mode := .string isKey quoted (.hex (size + c.utf8Size) value) }
    else
      match value with
      | some unit => { s with mode := .string isKey (quoted.pushUnit unit) .none }
      | none => s.stop .malformed

end State

namespace NumberPart

def next? (part : NumberPart) (c : Char) : Option NumberPart :=
  match part with
  | .sign => if c = '0' then some .zero else if c.isDigit then some .whole else none
  | .zero => if c = '.' then some .point else if c = 'e' || c = 'E' then some .mark else none
  | .whole =>
    if c.isDigit then some .whole
    else if c = '.' then some .point
    else if c = 'e' || c = 'E' then some .mark
    else none
  | .point => if c.isDigit then some .fraction else none
  | .fraction =>
    if c.isDigit then some .fraction else if c = 'e' || c = 'E' then some .mark else none
  | .mark =>
    if c.isDigit then some .exponent else if c = '+' || c = '-' then some .markSign else none
  | .markSign => if c.isDigit then some .exponent else none
  | .exponent => if c.isDigit then some .exponent else none

def isWhole : NumberPart → Bool
  | .zero | .whole | .fraction | .exponent => true
  | _ => false

end NumberPart

def ofNumber (written : List Char) : Reading :=
  match JsonNumber.ofWritten written with
  | some n => .number n
  | none => .unreadable

namespace State

def step (s : State) (c : Char) : State :=
  match s.mode with
  | .stopped _ => s
  | .string isKey quoted escape => s.inString isKey quoted c escape
  | .word rest value =>
    match rest with
    | [] => s.stop .malformed
    | expected :: rest =>
      if c ≠ expected then s.stop .malformed
      else if rest = [] then s.complete value
      else { s with mode := .word rest value }
  | .number part written =>
    match part.next? c with
    | some part => { s with mode := .number part (c :: written) }
    | none =>
      if part = .zero && c.isDigit || !part.isWhole then s.stop .malformed
      else
        let s := s.complete (ofNumber written.reverse)
        if isSpace c then s else s.afterValue c
  | mode =>
    if isSpace c then s
    else
      match mode with
      | .value => s.beginValue c
      | .itemOrEnd => if c = ']' then s.endArray else s.beginValue c
      | .keyOrEnd =>
        if c = '}' then s.endObject
        else if c = '"' then { s with mode := .string true {} .none }
        else s.stop .malformed
      | .key => if c = '"' then { s with mode := .string true {} .none } else s.stop .malformed
      | .colon => if c = ':' then { s with mode := .value } else s.stop .malformed
      | _ => s.afterValue c

def stop? (s : State) : Option Stop :=
  match s.mode with
  | .stopped stop => some stop
  | .string _ quoted _ =>
    some (if quoted.sound then .both .truncated else ⟨.malformed, .truncated⟩)
  | .number .. => some ⟨.truncated, .malformed⟩
  | .after => if s.nested.isEmpty then none else some (.both .truncated)
  | _ => some (.both .truncated)

def atValue (s : State) : Bool :=
  match s.mode with
  | .value => true
  | .string isKey _ _ => !isKey
  | .number .. => true
  | .word .. => true
  | _ => false

end State

def close (stop : Stop) : List Frame → Option Reading → Reading
  | [], inner => inner.getD (.stopped stop)
  | .array items :: frames, inner =>
    close stop frames (some (.array (items.reverse ++ inner.toList) (some stop)))
  | .object members key :: frames, inner =>
    let pending := match key, inner with
      | some key, some inner => [(key, inner)]
      | some key, none => [(key, .stopped stop)]
      | none, _ => []
    close stop frames (some (.object (members.reverse ++ pending) (some stop)))

structure Whole where
  value : Reading
  trailing : Option Flaw
deriving Repr

namespace State

def finish (s : State) : Whole :=
  let s := match s.mode with
    | .number part written =>
      if part.isWhole then s.complete (ofNumber written.reverse) else s
    | _ => s
  match s.result, s.stop? with
  | some value, none => ⟨value, none⟩
  | some value, some stop => ⟨value, some stop.read⟩
  | none, stop =>
    let stop := stop.getD (.both .truncated)
    ⟨close stop s.nested (if s.atValue then some (.stopped stop) else none), none⟩

end State

def ofText (text : List Char) : Whole :=
  (text.foldl State.step .start).finish

end Reading

end HtmlIds
