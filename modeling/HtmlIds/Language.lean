import HtmlIds.Path
import HtmlIds.Text.Blank

namespace HtmlIds

inductive Language where
  | html
deriving DecidableEq, Repr, Inhabited

namespace Language

def identifier : Language → String
  | .html => "html"

def ofIdentifier? (text : String) : Option Language :=
  if text = "html" then some .html else none

def ofPath? (path : String) : Option Language :=
  match (Path.extension? path).map fun extension => asciiLower extension.toList with
  | some extension =>
    if extension = "html".toList || extension = "htm".toList then some .html else none
  | none => none

end Language

end HtmlIds
