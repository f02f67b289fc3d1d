namespace HtmlIds

/-- The byte offsets from `start` up to, but not including, `stop`. -/
structure Span where
  start : Nat
  stop : Nat
deriving DecidableEq, Repr, Inhabited

namespace Span

def isEmpty (span : Span) : Bool :=
  span.start == span.stop

def contains (span : Span) (offset : Nat) : Bool :=
  span.start ≤ offset && offset < span.stop

end Span

/-- A line and a column in UTF-16 units, both counted from zero in words of 32 bits. -/
structure Position where
  line : UInt32
  character : UInt32
deriving DecidableEq, Repr, Inhabited

namespace Position

instance : LT Position :=
  ⟨fun p q => p.line < q.line ∨ (p.line = q.line ∧ p.character < q.character)⟩

instance : LE Position :=
  ⟨fun p q => p.line < q.line ∨ (p.line = q.line ∧ p.character ≤ q.character)⟩

instance (p q : Position) : Decidable (p < q) :=
  inferInstanceAs (Decidable (p.line < q.line ∨ (p.line = q.line ∧ p.character < q.character)))

instance (p q : Position) : Decidable (p ≤ q) :=
  inferInstanceAs (Decidable (p.line < q.line ∨ (p.line = q.line ∧ p.character ≤ q.character)))

def display (p : Position) : String :=
  toString (p.line + 1).toNat ++ ":" ++ toString (p.character + 1).toNat

end Position

structure Range where
  start : Position
  stop : Position
deriving DecidableEq, Repr, Inhabited

namespace Range

def onLine (start : Position) (length : UInt32) : Range :=
  ⟨start, ⟨start.line, start.character + length⟩⟩

def contains (range : Range) (p : Position) : Bool :=
  range.start ≤ p && p < range.stop

end Range

end HtmlIds
