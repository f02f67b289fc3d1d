import HtmlIds.Json.Reading

namespace HtmlIds

inductive Refusal (ε : Type) where
  | text : Flaw → Refusal ε
  | shape : Refusal ε
  | rule : ε → Refusal ε
deriving DecidableEq, Repr

def Refusal.message {ε : Type} (explain : ε → String) : Refusal ε → String
  | .text .malformed => "malformed text"
  | .text .truncated => "the text ends too early"
  | .shape => "unexpected value"
  | .rule problem => explain problem

abbrev Decoder (ε α : Type) := Reading → Except (Refusal ε) α

namespace Reading

mutual

/-- The flaw that is met when a value is passed over. -/
def skipFlaw? : Reading → Option Flaw
  | .array items stop => (skipItems? items).or (stop.map (·.skip))
  | .object members stop => (skipMembers? members).or (stop.map (·.skip))
  | .stopped stop => some stop.skip
  | _ => none

def skipItems? : List Reading → Option Flaw
  | [] => none
  | item :: rest => (skipFlaw? item).or (skipItems? rest)

def skipMembers? : List (Option String × Reading) → Option Flaw
  | [] => none
  | (_, value) :: rest => (skipFlaw? value).or (skipMembers? rest)

end

mutual

def toJson (depth : Nat) : Reading → Except Flaw Json
  | .null => .ok .null
  | .bool b => .ok (.bool b)
  | .number n => .ok (.number n)
  | .string text => .ok (.string text)
  | .unreadable => .error .malformed
  | .stopped stop => .error stop.read
  | .array items stop =>
    if depth = 0 then .error .malformed
    else
      match toItems (depth - 1) items, stop with
      | .error flaw, _ => .error flaw
      | .ok _, some stop => .error stop.read
      | .ok items, none => .ok (.array items)
  | .object members stop =>
    if depth = 0 then .error .malformed
    else
      match toMembers (depth - 1) members, stop with
      | .error flaw, _ => .error flaw
      | .ok _, some stop => .error stop.read
      | .ok members, none => .ok (Json.ofMembers members)

def toItems (depth : Nat) : List Reading → Except Flaw (List Json)
  | [] => .ok []
  | item :: rest =>
    match toJson depth item with
    | .error flaw => .error flaw
    | .ok item => (toItems depth rest).map (item :: ·)

def toMembers (depth : Nat) : List (Option String × Reading) → Except Flaw (List (String × Json))
  | [] => .ok []
  | (none, _) :: _ => .error .malformed
  | (some key, value) :: rest =>
    match toJson depth value with
    | .error flaw => .error flaw
    | .ok value => (toMembers depth rest).map ((key, value) :: ·)

end

mutual

def ofJson : Json → Reading
  | .null => .null
  | .bool b => .bool b
  | .number n => .number n
  | .string text => .string text
  | .array items => .array (ofItems items) none
  | .object members => .object (ofMembers members) none

def ofItems : List Json → List Reading
  | [] => []
  | item :: rest => ofJson item :: ofItems rest

def ofMembers : List (String × Json) → List (Option String × Reading)
  | [] => []
  | (key, value) :: rest => (some key, ofJson value) :: ofMembers rest

end

variable {ε α β σ : Type}

def refuse : Reading → Except (Refusal ε) α
  | .stopped stop => .error (.text stop.read)
  | .unreadable => .error (.text .malformed)
  | _ => .error .shape

def skip (value : Reading) : Except (Refusal ε) Unit :=
  match value.skipFlaw? with
  | some flaw => .error (.text flaw)
  | none => .ok ()

def asString : Decoder ε String
  | .string text => .ok text
  | value => value.refuse

def asInteger (low high : Int) : Decoder ε Int
  | .number (.integer n) => if low ≤ n && n < high then .ok n else .error .shape
  | value => value.refuse

def asOption (decode : Decoder ε α) : Decoder ε (Option α)
  | .null => .ok none
  | value => (decode value).map some

def atEnd (result : α) : Option Stop → Except (Refusal ε) α
  | none => .ok result
  | some stop => .error (.text stop.read)

def atLast (result : α) : List Reading → Option Stop → Except (Refusal ε) α
  | [], stop => atEnd result stop
  | _ :: _, _ => .error (.text .malformed)

def asList (decode : Decoder ε α) : Decoder ε (List α)
  | .array items stop =>
    match items.mapM decode with
    | .error refusal => .error refusal
    | .ok values => atEnd values stop
  | value => value.refuse

def nextItem (decode : Decoder ε α) (absent : Except (Refusal ε) α) (stop : Option Stop) :
    List Reading → Except (Refusal ε) (α × List Reading)
  | item :: rest => (decode item).map (·, rest)
  | [] =>
    match stop with
    | some stop => .error (.text stop.read)
    | none => absent.map (·, [])

def asPair (first : Decoder ε α) (second : Decoder ε β) : Decoder ε (α × β)
  | .array items stop =>
    match nextItem first (.error .shape) stop items with
    | .error refusal => .error refusal
    | .ok (a, rest) =>
      match nextItem second (.error .shape) stop rest with
      | .error refusal => .error refusal
      | .ok (b, rest) => atLast (a, b) rest stop
  | value => value.refuse

def foldMembers (take : σ → String → Decoder ε σ) (start : σ) :
    List (Option String × Reading) → Option Stop → Except (Refusal ε) σ
  | [], stop => atEnd start stop
  | (none, _) :: _, _ => .error (.text .malformed)
  | (some key, value) :: rest, stop =>
    match take start key value with
    | .error refusal => .error refusal
    | .ok next => foldMembers take next rest stop

def once (field : Option α) (decode : Decoder ε α) : Decoder ε (Option α) := fun value =>
  match field with
  | some _ => .error .shape
  | none => (decode value).map some

def Whole.decode (whole : Whole) (decode : Decoder ε α) : Except (Refusal ε) α :=
  match decode whole.value, whole.trailing with
  | .error refusal, _ => .error refusal
  | .ok _, some flaw => .error (.text flaw)
  | .ok value, none => .ok value

end Reading

namespace Json

def nestingLimit : Nat := 127

def parse (text : List Char) : Except Flaw Json :=
  let whole := Reading.ofText text
  match whole.value.toJson nestingLimit, whole.trailing with
  | .error flaw, _ => .error flaw
  | .ok _, some flaw => .error flaw
  | .ok value, none => .ok value

end Json

end HtmlIds
