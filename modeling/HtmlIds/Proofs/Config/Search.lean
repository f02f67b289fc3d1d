import HtmlIds.Config.Format
import HtmlIds.Proofs.FileSystem
import HtmlIds.Proofs.Path.Ancestors

namespace HtmlIds.Config

def HasConfigFile (files : FileSystem) (directory : String) : Prop :=
  ∃ name ∈ fileNames, files.HasFile (Path.join directory name)

def IsPreferred (files : FileSystem) (directory name : String) : Prop :=
  files.HasFile (Path.join directory name) ∧ ∃ better worse, fileNames = better ++ name :: worse ∧
    ∀ other ∈ better, ¬files.HasFile (Path.join directory other)

def IsNearest (files : FileSystem) (chain : List String) (found : String) : Prop :=
  ∃ lower directory upper name, chain = lower ++ directory :: upper ∧
    (∀ below ∈ lower, ¬HasConfigFile files below) ∧ IsPreferred files directory name ∧
    found = Path.join directory name

variable {files : FileSystem} {directory name found start : String} {chain : List String}

theorem find?_isFile_eq_none_iff :
    (fileNames.map (Path.join directory)).find? files.isFile = none ↔
      ¬HasConfigFile files directory := by
  simp only [List.find?_eq_none, List.forall_mem_map, FileSystem.isFile_iff, HasConfigFile, not_exists,
    not_and]

theorem find?_isFile_eq_some_iff :
    (fileNames.map (Path.join directory)).find? files.isFile = some found ↔
      ∃ name, IsPreferred files directory name ∧ found = Path.join directory name := by
  rw [List.find?_map, Option.map_eq_some_iff]
  simp only [List.find?_eq_some_iff_append, Function.comp_apply, FileSystem.isFile_iff, IsPreferred,
    Bool.not_eq_true', ← Bool.not_eq_true, eq_comm (a := found)]

theorem findSome?_eq_some_iff_isNearest :
    chain.findSome? (fun directory => (fileNames.map (Path.join directory)).find? files.isFile) =
      some found ↔ IsNearest files chain found := by
  simp only [List.findSome?_eq_some_iff, find?_isFile_eq_some_iff, find?_isFile_eq_none_iff, IsNearest]
  constructor
  · rintro ⟨lower, directory, upper, hchain, ⟨name, hname, hfound⟩, hlower⟩
    exact ⟨lower, directory, upper, name, hchain, hlower, hname, hfound⟩
  · rintro ⟨lower, directory, upper, name, hchain, hlower, hname, hfound⟩
    exact ⟨lower, directory, upper, hchain, ⟨name, hname, hfound⟩, hlower⟩

theorem find?_eq_some_iff_of_climb (h : Path.Climb start chain) :
    find? files start = some found ↔ IsNearest files chain found := by
  rw [find?, List.find?_flatMap, findSome?_eq_some_iff_isNearest,
    h.unique (Path.climb_ancestors start)]

theorem find?_eq_none_iff_of_climb (h : Path.Climb start chain) :
    find? files start = none ↔ ∀ directory ∈ chain, ¬HasConfigFile files directory := by
  rw [find?, List.find?_flatMap, List.findSome?_eq_none_iff, h.unique (Path.climb_ancestors start)]
  simp only [find?_isFile_eq_none_iff]

structure Searches (files : FileSystem) (start : String) (chain : List String) : Prop where
  climb : Path.Climb start chain
  ends : ∃ lower top, chain = lower ++ [top] ∧ (top = "" ∨ Path.IsRoot top)
  beginnings : ∀ base names, base = "" ∨ base = "/" → (∀ name ∈ names, Path.IsSegment name) →
    start = Path.descend base names → chain = (names.inits.map (Path.descend base)).reverse
  found : ∀ path, find? files start = some path ↔ IsNearest files chain path
  missing : find? files start = none ↔ ∀ directory ∈ chain, ¬HasConfigFile files directory

theorem nearest_file_found (files : FileSystem) (start : String) :
    ∃ chain, Searches files start chain := by
  have hclimb := Path.climb_ancestors start
  refine ⟨Path.ancestors start, hclimb, ?_, ?_, ?_, find?_eq_none_iff_of_climb hclimb⟩
  · obtain ⟨lower, top, hchain, hnone⟩ := hclimb.exists_top
    exact ⟨lower, top, hchain, Path.eq_or_isRoot_of_parent?_eq_none hnone⟩
  · rintro base names hbase hnames rfl
    exact hclimb.unique (Path.climb_descend hbase hnames)
  · exact fun path => find?_eq_some_iff_of_climb hclimb

end HtmlIds.Config
