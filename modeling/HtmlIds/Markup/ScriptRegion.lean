import HtmlIds.Text.LineTable

namespace HtmlIds

/-- Whether a character spells a small ASCII letter, in either case or as the long s. -/
def spells (c letter : Char) : Bool :=
  c.toLower == letter || (c == 'ſ' && letter == 's')

def startsWithWord : List Char → List Char → Bool
  | [], _ => true
  | _ :: _, [] => false
  | letter :: word, c :: text => spells c letter && startsWithWord word text

def scriptOpener : List Char := "<script".toList

def scriptCloser : List Char := "</script>".toList

def closerAfter? : List Char → Option Nat
  | [] => none
  | c :: rest =>
    if startsWithWord scriptCloser (c :: rest) then some 0
    else (closerAfter? rest).map (· + 1)

def scanScripts : List Char → Nat → Nat → List Span
  | [], _, _ => []
  | c :: rest, offset, skip + 1 => scanScripts rest (offset + c.utf8Size) skip
  | c :: rest, offset, 0 =>
    if startsWithWord scriptOpener (c :: rest) && rest.contains '>' then
      let tag := rest.idxOf '>' + 1
      let content := rest.drop tag
      match closerAfter? content with
      | none => []
      | some size =>
        let start := offset + c.utf8Size + utf8Length (rest.take tag)
        ⟨start, start + utf8Length (content.take size)⟩ ::
          scanScripts rest (offset + c.utf8Size) (tag + size + scriptCloser.length)
    else scanScripts rest (offset + c.utf8Size) 0

def scriptRegions (text : String) : List Span :=
  scanScripts text.toList 0 0

def inScriptRegion (text : String) (offset : Nat) : Bool :=
  (scriptRegions text).any (·.contains offset)

end HtmlIds
