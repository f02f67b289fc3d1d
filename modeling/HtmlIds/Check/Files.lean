import HtmlIds.FileSystem
import HtmlIds.Language

namespace HtmlIds

def skippedDirectory : String := "node_modules"

mutual

def FileTree.markupFiles (path : String) : FileTree → List String
  | .file _ => if (Language.ofPath? path).isSome then [path] else []
  | .directory entries =>
    ((FileTree.markupFilesOf path entries).mergeSort fun a b => a.1 ≤ b.1).flatMap Prod.snd

def FileTree.markupFilesOf (path : String) : List (String × FileTree) → List (String × List String)
  | [] => []
  | (name, tree) :: rest =>
    let found :=
      if name = skippedDirectory && !tree.isFile then []
      else FileTree.markupFiles (Path.join path name) tree
    (name, found) :: FileTree.markupFilesOf path rest

end

structure Inputs where
  files : List String := []
  failures : List String := []
deriving DecidableEq, Repr, Inhabited

namespace Inputs

def append (a b : Inputs) : Inputs :=
  ⟨a.files ++ b.files, a.failures ++ b.failures⟩

def ofRoot (files : FileSystem) (path : String) : Inputs :=
  match files.find? path with
  | none => { failures := [path ++ ": No such file or directory"] }
  | some (.file _) => { files := [path] }
  | some tree => { files := tree.markupFiles path }

def ofRoots (files : FileSystem) (paths : List String) : Inputs :=
  (paths.map (ofRoot files)).foldl append {}

end Inputs

end HtmlIds
