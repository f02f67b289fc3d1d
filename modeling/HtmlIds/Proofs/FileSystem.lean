import HtmlIds.FileSystem
import HtmlIds.Proofs.Path

namespace HtmlIds

namespace FileTree

inductive WellNamed : FileTree → Prop
  | file (bytes : ByteArray) : WellNamed (.file bytes)
  | directory {entries : List (String × FileTree)} :
      (entries.map Prod.fst).Nodup → (∀ entry ∈ entries, Path.IsName entry.1) →
        (∀ entry ∈ entries, WellNamed entry.2) → WellNamed (.directory entries)

inductive Leads : FileTree → List String → FileTree → Prop
  | here (tree : FileTree) : Leads tree [] tree
  | into {entries : List (String × FileTree)} {name : String} {inner leaf : FileTree}
      {names : List String} :
      (name, inner) ∈ entries → Leads inner names leaf → Leads (.directory entries) (name :: names) leaf

variable {tree leaf : FileTree} {bytes : ByteArray} {entries : List (String × FileTree)}
  {names : List String} {name : String}

theorem wellNamed_directory_iff : WellNamed (.directory entries) ↔
    (entries.map Prod.fst).Nodup ∧ ∀ entry ∈ entries, Path.IsName entry.1 ∧ entry.2.WellNamed := by
  constructor
  · rintro (_ | ⟨hnodup, hnames, hinner⟩)
    exact ⟨hnodup, fun entry hmem => ⟨hnames entry hmem, hinner entry hmem⟩⟩
  · rintro ⟨hnodup, hentries⟩
    exact .directory hnodup (fun entry hmem => (hentries entry hmem).1)
      fun entry hmem => (hentries entry hmem).2

theorem leads_file_iff : Leads (.file bytes) names leaf ↔ names = [] ∧ leaf = .file bytes := by
  constructor
  · rintro (_ | _)
    exact ⟨rfl, rfl⟩
  · rintro ⟨rfl, rfl⟩
    exact .here _

theorem leads_directory_iff : Leads (.directory entries) names (.file bytes) ↔
    ∃ entry ∈ entries, ∃ rest, names = entry.1 :: rest ∧ Leads entry.2 rest (.file bytes) := by
  constructor
  · rintro (_ | ⟨hmem, hleads⟩)
    exact ⟨_, hmem, _, rfl, hleads⟩
  · rintro ⟨⟨name, inner⟩, hmem, rest, rfl, hleads⟩
    exact .into hmem hleads

theorem Leads.isName (h : Leads tree names leaf) (htree : tree.WellNamed) :
    ∀ name ∈ names, Path.IsName name := by
  induction h with
  | here _ => exact List.forall_mem_nil _
  | into hmem _ ih =>
      obtain ⟨hname, hinner⟩ := (wellNamed_directory_iff.1 htree).2 _ hmem
      exact List.forall_mem_cons.2 ⟨hname, ih hinner⟩

structure Place.WellNamed (place : Place) : Prop where
  tree : place.tree.WellNamed
  around : ∀ outer ∈ place.around, outer.WellNamed

theorem mem_of_lookup {α : Type} {key : String} {value : α} {list : List (String × α)}
    (h : list.lookup key = some value) : (key, value) ∈ list := by
  obtain ⟨front, back, rfl, -⟩ := List.lookup_eq_some_iff.1 h
  exact List.mem_append_right front List.mem_cons_self

theorem Place.enter_cases {place place' : Place} {piece : List Char}
    (h : place.enter piece = .ok place') :
    place' = place ∨ place.around = place'.tree :: place'.around ∨
      ∃ entries name, place.tree = .directory entries ∧ (name, place'.tree) ∈ entries ∧
        place'.around = place.tree :: place.around := by
  obtain ⟨tree, around⟩ := place
  cases tree with
  | file bytes => cases h
  | directory entries =>
      simp only [Place.enter] at h
      split at h
      · exact .inl (Except.ok.inj h).symm
      · split at h
        · cases around with
          | nil => exact .inl (Except.ok.inj h).symm
          | cons outer others =>
              cases h
              exact .inr (.inl rfl)
        · split at h
          · cases h
          · split at h
            · cases h
            · next hlookup =>
                cases h
                exact .inr (.inr ⟨entries, _, rfl, mem_of_lookup hlookup, rfl⟩)

theorem Place.WellNamed.enter {place place' : Place} (h : place.WellNamed) {piece : List Char}
    (henter : place.enter piece = .ok place') : place'.WellNamed := by
  obtain ⟨htree, haround⟩ := h
  rcases Place.enter_cases henter with rfl | hup | ⟨entries, name, hdirectory, hmem, hdown⟩
  · exact ⟨htree, haround⟩
  · rw [hup] at haround
    obtain ⟨houter, hothers⟩ := List.forall_mem_cons.1 haround
    exact ⟨houter, hothers⟩
  · refine ⟨?_, hdown ▸ List.forall_mem_cons.2 ⟨htree, haround⟩⟩
    rw [hdirectory] at htree
    exact ((wellNamed_directory_iff.1 htree).2 _ hmem).2

theorem Place.WellNamed.foldlM {place place' : Place} (h : place.WellNamed)
    {pieces : List (List Char)} (hfold : pieces.foldlM Place.enter place = .ok place') :
    place'.WellNamed := by
  induction pieces generalizing place with
  | nil =>
      cases hfold
      exact h
  | cons piece rest ih =>
      rw [List.foldlM_cons] at hfold
      cases henter : place.enter piece with
      | error problem =>
          rw [henter] at hfold
          cases hfold
      | ok next =>
          rw [henter] at hfold
          exact ih (h.enter henter) hfold

end FileTree

def FileSystem.HasFile (files : FileSystem) (path : String) : Prop :=
  ∃ bytes, files.find path = .ok (.file bytes)

theorem FileSystem.isFile_iff {files : FileSystem} {path : String} :
    files.isFile path = true ↔ files.HasFile path := by
  rw [isFile, find?, HasFile]
  cases files.find path with
  | error problem => simp [Except.toOption]
  | ok tree => cases tree <;> simp [Except.toOption, FileTree.isFile]

theorem FileSystem.wellNamed_of_find? {files : FileSystem} {path : String} {tree : FileTree}
    (h : files.root.WellNamed) (hfind : files.find? path = some tree) : tree.WellNamed := by
  rw [find?, find] at hfind
  split at hfind
  · cases hfind
  · split at hfind
    · cases hfind
    · cases hfold : (pieces '/' (Path.join files.workingDirectory path).toList).foldlM
          FileTree.Place.enter ⟨files.root, []⟩ with
      | error problem =>
          simp only [hfold] at hfind
          cases hfind
      | ok place =>
          simp only [hfold] at hfind
          cases hfind
          have hroot : FileTree.Place.WellNamed ⟨files.root, []⟩ := ⟨h, List.forall_mem_nil _⟩
          exact (hroot.foldlM hfold).tree

end HtmlIds
