import HtmlIds.Text.Pieces

namespace HtmlIds

structure ColorVariables where
  noColor : Option String := none
  cliColor : Option String := none
  cliColorForce : Option String := none
deriving DecidableEq, Repr, Inhabited

def usesColor (color noColor : Bool) (found : ColorVariables) : Bool :=
  if color then true
  else if noColor || found.noColor.isSome then false
  else
    match found.cliColorForce with
    | some force =>
      if force = "" then found.cliColor != some "0" else force ≠ "0"
    | none => false

structure Style where
  codes : String
deriving DecidableEq, Repr

namespace Style

def red : Style := ⟨"31"⟩

def yellow : Style := ⟨"33"⟩

def dim : Style := ⟨"2"⟩

def boldRed : Style := ⟨"1;31"⟩

def boldYellow : Style := ⟨"1;33"⟩

def boldGreen : Style := ⟨"1;32"⟩

def start (style : Style) : List Char :=
  Char.ofNat 27 :: '[' :: style.codes.toList ++ ['m']

def reset : List Char := [Char.ofNat 27, '[', '0', 'm']

/-- A text in which the style begins again after each end of a style that it holds, after `skip`
characters are passed over. -/
def resume (style : Style) : List Char → Nat → List Char
  | [], _ => []
  | c :: rest, skip + 1 => c :: (if skip = 0 then style.start else []) ++ resume style rest skip
  | c :: rest, 0 =>
    c :: resume style rest (if reset.isPrefixOf (c :: rest) then reset.length - 1 else 0)

def paint (style : Style) (colors : Bool) (text : String) : String :=
  if colors then String.ofList (style.start ++ style.resume text.toList 0 ++ reset) else text

end Style

end HtmlIds
