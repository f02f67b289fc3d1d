import HtmlIds.Text.Pieces

namespace HtmlIds

namespace Path

def namesNothing (piece : List Char) : Bool :=
  piece == [] || piece == ['.']

/-- The first piece of a path and, last first, those after it up to the last that names something.
-/
def outline (path : String) : List Char × List (List Char) :=
  match pieces '/' path.toList with
  | [] => ([], [])
  | first :: rest => (first, rest.reverse.dropWhile namesNothing)

def isAbsolute (path : String) : Bool :=
  path.toList.head? == some '/'

def fileName? (path : String) : Option String :=
  let (first, later) := outline path
  let last := later.head?.getD first
  if namesNothing last || last == ['.', '.'] then none else some (String.ofList last)

def extension? (path : String) : Option String :=
  match fileName? path with
  | none => none
  | some name =>
    let after := name.toList.reverse.takeWhile (· != '.')
    if after.length + 1 < name.toList.length then some (String.ofList after.reverse) else none

/-- The path without its last name. The parent of a lone relative name is the empty path; the empty
path and the root have none. -/
def parent? (path : String) : Option String :=
  match outline path with
  | (first, []) => if first = [] then none else some ""
  | (first, _ :: before) =>
    let before := before.dropWhile namesNothing
    if first = [] && before = [] then some "/"
    else some (String.ofList (joinPieces '/' (first :: before.reverse)))

def join (base path : String) : String :=
  if isAbsolute path || base = "" then path
  else if base.toList.getLast? = some '/' then base ++ path
  else base ++ "/" ++ path

def upwards : Nat → String → List String
  | 0, path => [path]
  | count + 1, path =>
    path :: match parent? path with
      | none => []
      | some above => upwards count above

def ancestors (path : String) : List String :=
  upwards path.length path

def absolute (directory path : String) : String :=
  let names := (pieces '/' path.toList).filter (!namesNothing ·)
  let whole := names.foldl (fun base name => join base (String.ofList name))
    (if isAbsolute path then "/" else directory)
  if path.toList.getLast? = some '/' && names ≠ [] then whole ++ "/" else whole

end Path

end HtmlIds
