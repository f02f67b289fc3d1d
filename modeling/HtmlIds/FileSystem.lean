import HtmlIds.Path
import HtmlIds.Text.LineTable

namespace HtmlIds

inductive FileTree where
  | file : ByteArray → FileTree
  | directory : List (String × FileTree) → FileTree
deriving Inhabited

inductive FileError where
  | missing | notDirectory | isDirectory | nameTooLong | invalidName | notText
deriving DecidableEq, Repr

def FileError.message : FileError → String
  | .missing => "No such file or directory (os error 2)"
  | .notDirectory => "Not a directory (os error 20)"
  | .isDirectory => "Is a directory (os error 21)"
  | .nameTooLong => "File name too long (os error 36)"
  | .invalidName => "file name contained an unexpected NUL byte"
  | .notText => "stream did not contain valid UTF-8"

namespace FileTree

/-- A place in a tree, and the directories that it lies in, innermost first. -/
structure Place where
  tree : FileTree
  around : List FileTree
deriving Inhabited

def longestName : Nat := 255

def Place.enter (place : Place) (piece : List Char) : Except FileError Place :=
  match place.tree with
  | .file _ => .error .notDirectory
  | .directory entries =>
    if Path.namesNothing piece then .ok place
    else if piece = ['.', '.'] then
      match place.around with
      | [] => .ok place
      | outer :: others => .ok ⟨outer, others⟩
    else if longestName < utf8Length piece then .error .nameTooLong
    else
      match entries.lookup (String.ofList piece) with
      | none => .error .missing
      | some tree => .ok ⟨tree, place.tree :: place.around⟩

def isFile : FileTree → Bool
  | .file _ => true
  | .directory _ => false

def put (leaf : FileTree) : List String → FileTree → FileTree
  | [], _ => leaf
  | name :: rest, tree =>
    let entries := match tree with
      | .directory entries => entries
      | .file _ => []
    let inner := put leaf rest ((entries.lookup name).getD (.directory []))
    .directory (entries.filter (·.1 ≠ name) ++ [(name, inner)])

def namesOf (path : String) : List String :=
  ((pieces '/' path.toList).foldl
    (fun names piece =>
      if Path.namesNothing piece then names
      else if piece = ['.', '.'] then names.drop 1
      else String.ofList piece :: names) []).reverse

end FileTree

structure FileSystem where
  root : FileTree
  workingDirectory : String
deriving Inhabited

namespace FileSystem

def find (files : FileSystem) (path : String) : Except FileError FileTree :=
  if path = "" then .error .missing
  else if path.toList.contains (Char.ofNat 0) then .error .invalidName
  else
    let whole := Path.join files.workingDirectory path
    ((pieces '/' whole.toList).foldlM FileTree.Place.enter ⟨files.root, []⟩).map (·.tree)

def find? (files : FileSystem) (path : String) : Option FileTree :=
  (files.find path).toOption

def isFile (files : FileSystem) (path : String) : Bool :=
  ((files.find? path).map (·.isFile)).getD false

def readBytes (files : FileSystem) (path : String) : Except FileError ByteArray :=
  match files.find path with
  | .error problem => .error problem
  | .ok (.directory _) => .error .isDirectory
  | .ok (.file bytes) => .ok bytes

def readText (files : FileSystem) (path : String) : Except FileError String :=
  match files.readBytes path with
  | .error problem => .error problem
  | .ok bytes =>
    match String.fromUTF8? bytes with
    | none => .error .notText
    | some text => .ok text

def writeProblem? (files : FileSystem) (path : String) : Option FileError :=
  match files.find ((Path.parent? path).getD ""), files.find path with
  | .error problem, _ => some problem
  | .ok (.file _), _ => some .notDirectory
  | .ok (.directory _), .ok (.directory _) => some .isDirectory
  | .ok (.directory _), _ => none

end FileSystem

end HtmlIds
