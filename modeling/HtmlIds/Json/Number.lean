import HtmlIds.Json.Basic

namespace HtmlIds

namespace JsonNumber

def digitValue (c : Char) : Nat :=
  c.toNat - 48

def digitsValue (digits : List Char) : Nat :=
  digits.foldl (fun value c => 10 * value + digitValue c) 0

/-- The natural number nearest to `n` that has at most 53 significant bits, a tie going to the one
whose last bit is even. -/
def toSignificand (n : Nat) : Nat :=
  let drop := n.log2 - 52
  let unit := 1 <<< drop
  let quotient := n / unit
  let rest := n % unit
  if 2 * rest > unit || (2 * rest == unit && quotient % 2 == 1) then (quotient + 1) * unit
  else quotient * unit

def beyondLargest : Nat :=
  1 <<< 1024 - 1 <<< 970

def leading : List Char → Nat → Nat × Nat
  | [], value => (value, 0)
  | c :: rest, value =>
    if 10 * value + digitValue c < UInt64.size then leading rest (10 * value + digitValue c)
    else (value, rest.length + 1)

def isFinite (significand : Nat) (exponent : Int) : Bool :=
  significand == 0 || exponent ≤ 0 ||
    (exponent ≤ 308 &&
      toSignificand significand * toSignificand (Nat.pow 10 exponent.toNat) < beyondLargest)

structure Parts where
  negative : Bool
  whole : List Char
  fraction : List Char
  exponent : Option (Bool × List Char)
deriving DecidableEq, Repr

def parts (written : List Char) : Parts :=
  let negative := written.head? == some '-'
  let unsigned := if negative then written.drop 1 else written
  let whole := unsigned.takeWhile Char.isDigit
  let afterWhole := unsigned.drop whole.length
  let fraction := match afterWhole with
    | '.' :: rest => rest.takeWhile Char.isDigit
    | _ => []
  let afterFraction := if fraction = [] then afterWhole else afterWhole.drop (fraction.length + 1)
  let exponent := match afterFraction with
    | [] => none
    | _ :: '-' :: digits => some (true, digits)
    | _ :: '+' :: digits => some (false, digits)
    | _ :: digits => some (false, digits)
  ⟨negative, whole, fraction, exponent⟩

/-- Whether the parts make a finite number. A digit that does not fit into the significand counts
towards the exponent when it stands before the point, and not at all after it. -/
def Parts.isFinite (p : Parts) : Bool :=
  let (whole, more) := leading p.whole 0
  let (significand, dropped) := leading p.fraction whole
  let start : Int := (more : Int) - (p.fraction.length - dropped : Nat)
  match p.exponent with
  | none => JsonNumber.isFinite significand start
  | some (negative, digits) =>
    let size := digitsValue digits
    if size ≥ 0x80000000 then significand == 0 || negative
    else JsonNumber.isFinite significand (if negative then start - size else start + size)

def ofWritten (written : List Char) : Option JsonNumber :=
  let p := parts written
  let size := digitsValue p.whole
  if p.fraction = [] && p.exponent.isNone && !p.negative && size < UInt64.size then
    some (.integer size)
  else if p.fraction = [] && p.exponent.isNone && p.negative && 0 < size && size ≤ 0x8000000000000000 then
    some (.integer (-size))
  else if p.isFinite then some (.written written)
  else none

end JsonNumber

end HtmlIds
