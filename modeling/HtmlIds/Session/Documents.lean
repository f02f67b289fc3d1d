import HtmlIds.Language
import HtmlIds.OrderedMap
import HtmlIds.Uri

namespace HtmlIds

structure Document where
  /-- None for languages that are not scanned. -/
  language : Option Language
  version : Int
  text : String
deriving DecidableEq, Repr

def Document.isEligible (document : Document) : Bool :=
  document.language.isSome

abbrev Documents := OrderedMap Document

namespace Documents

def opened (documents : Documents) (uri : Uri) (language : String) (version : Int)
    (text : String) : Documents :=
  documents.insert uri ⟨Language.ofIdentifier? language, version, text⟩

def changed? (documents : Documents) (uri : Uri) (version : Int) (text : String) :
    Option Documents :=
  match documents.find? uri with
  | none => none
  | some document =>
    if version ≤ document.version then none
    else some (documents.insert uri { document with version, text })

end Documents

end HtmlIds
