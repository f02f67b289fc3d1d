import HtmlIds.Json.Decoder
import HtmlIds.Text.Blank

namespace HtmlIds

inductive LengthError where
  | empty | invalidDigit | tooLarge
deriving DecidableEq, Repr

def LengthError.message : LengthError → String
  | .empty => "cannot parse integer from empty string"
  | .invalidDigit => "invalid digit found in string"
  | .tooLarge => "number too large to fit in target type"

inductive FrameError where
  | notText : FrameError
  | badLength : String → LengthError → FrameError
  | noBuffer : FrameError
  | cutShort : FrameError
  | notJson : Flaw → FrameError
deriving DecidableEq, Repr

namespace FrameError

def chain : FrameError → List String
  | .notText => ["stream did not contain valid UTF-8"]
  | .badLength header problem => ["Bad Content-Length header: " ++ header, problem.message]
  | .noBuffer => ["capacity overflow"]
  | .cutShort => ["failed to fill whole buffer"]
  | .notJson .malformed => ["tsserver sent invalid JSON", "malformed text"]
  | .notJson .truncated => ["tsserver sent invalid JSON", "the text ends too early"]

/-- Where there is no buffer for a message the program ends; every other error is returned. -/
def isPanic : FrameError → Bool
  | .noBuffer => true
  | _ => false

end FrameError

namespace Frame

def lengthLimit : Nat := UInt64.size

/-- No buffer has so many bytes. Memory is taken to be enough for all that have less. -/
def bufferLimit : Nat := 0x8000000000000000

def readDigits : List Char → Nat → Except LengthError Nat
  | [], value => .ok value
  | c :: rest, value =>
    if !c.isDigit then .error .invalidDigit
    else
      let value := 10 * value + (c.toNat - 48)
      if value < lengthLimit then readDigits rest value else .error .tooLarge

def readLength : List Char → Except LengthError Nat
  | [] => .error .empty
  | ['+'] => .error .invalidDigit
  | '+' :: digits => readDigits digits 0
  | digits => readDigits digits 0

inductive Header where
  | blank : Header
  | length : Nat → Header
  | other : Header
deriving DecidableEq, Repr

def lengthName : List Char := "Content-Length:".toList

def readHeader (line : List UInt8) : Except FrameError Header :=
  match String.fromUTF8? ⟨line.toArray⟩ with
  | none => .error .notText
  | some text =>
    let header := trimRight text.toList
    if header = [] then .ok .blank
    else if lengthName.isPrefixOf header then
      match readLength (trim (header.drop lengthName.length)) with
      | .ok length => .ok (.length length)
      | .error problem => .error (.badLength (String.ofList header) problem)
    else .ok .other

/-- Reads header lines up to the empty line after a length, of which the last one counts. Empty
lines before a length are passed over. `line` is what has been read of a line, in reverse order. The
result is none at the end of the stream. -/
def readHeaders (line : List UInt8) (length : Option Nat) :
    List UInt8 → Except FrameError (Option Nat) × List UInt8
  | [] =>
    if line = [] then (.ok none, [])
    else
      match readHeader line.reverse with
      | .error problem => (.error problem, [])
      | .ok .blank => (.ok length, [])
      | .ok _ => (.ok none, [])
  | byte :: rest =>
    if byte ≠ 10 then readHeaders (byte :: line) length rest
    else
      match readHeader (byte :: line).reverse with
      | .error problem => (.error problem, rest)
      | .ok .blank =>
        match length with
        | some length => (.ok (some length), rest)
        | none => readHeaders [] none rest
      | .ok (.length length) => readHeaders [] (some length) rest
      | .ok .other => readHeaders [] length rest

def readBody (body : List UInt8) : Except FrameError Json :=
  match String.fromUTF8? ⟨body.toArray⟩ with
  | none => .error (.notJson .malformed)
  | some text => (Json.parse text.toList).mapError .notJson

def read (stream : List UInt8) : Except FrameError (Option Json) × List UInt8 :=
  match readHeaders [] none stream with
  | (.error problem, rest) => (.error problem, rest)
  | (.ok none, rest) => (.ok none, rest)
  | (.ok (some length), rest) =>
    if bufferLimit ≤ length then (.error .noBuffer, rest)
    else if rest.length < length then (.error .cutShort, [])
    else ((readBody (rest.take length)).map some, rest.drop length)

end Frame

end HtmlIds
