import HtmlIds.Check.Files
import HtmlIds.Proofs.FileSystem
import HtmlIds.Proofs.Sorting
import Mathlib.Data.List.Nodup

namespace HtmlIds

open FileTree (Leads)

def HasMarkupExtension (name : String) : Prop :=
  ∃ stem extension : String, stem ≠ "" ∧ name = stem ++ "." ++ extension ∧
    '.' ∉ extension.toList ∧
      (asciiLower extension.toList = "html".toList ∨ asciiLower extension.toList = "htm".toList)

structure MarkupRoute (tree : FileTree) (route : List String) : Prop where
  leads : ∃ bytes, Leads tree route (.file bytes)
  extension : ∃ name ∈ route.getLast?, HasMarkupExtension name
  unskipped : skippedDirectory ∉ route.dropLast

/-- The paths of all routes of a kind, each route once. Routes are in the order of the first name in
which they differ, which is that of going into a directory before going on to the next name. -/
def ListsRoutes (root : String) (kind : List String → Prop) (paths : List String) : Prop :=
  ∃ routes : List (List String), paths = routes.map (Path.descend root) ∧
    routes.Pairwise (List.Lex (· < ·)) ∧ ∀ route, route ∈ routes ↔ kind route

structure Discovers (files : FileSystem) (root : String) (found : Inputs) : Prop where
  file : ∀ bytes, files.find? root = some (.file bytes) → found = ⟨[root], []⟩
  missing : files.find? root = none → found = ⟨[], [root ++ ": No such file or directory"]⟩
  directory : ∀ entries, files.find? root = some (.directory entries) →
    found.failures = [] ∧ found.files.Nodup ∧
      ListsRoutes root (MarkupRoute (.directory entries)) found.files

theorem isSome_ofPath?_iff {path : String} : (Language.ofPath? path).isSome = true ↔
    ∃ extension, Path.extension? path = some extension ∧
      (asciiLower extension.toList = "html".toList ∨ asciiLower extension.toList = "htm".toList) := by
  rw [Language.ofPath?]
  cases Path.extension? path with
  | none => simp
  | some extension =>
      simp only [Option.map_some, Option.some.injEq, exists_eq_left']
      split <;> simp_all

theorem isSome_ofPath?_join (base : String) {name : String} (h : Path.IsName name) :
    (Language.ofPath? (Path.join base name)).isSome = true ↔ HasMarkupExtension name := by
  simp only [isSome_ofPath?_iff, Path.extension?_eq_some_iff (Path.fileName?_join base h)]
  constructor
  · rintro ⟨extension, ⟨stem, hstem, heq, hplain⟩, hmarkup⟩
    exact ⟨stem, extension, hstem, heq, hplain, hmarkup⟩
  · rintro ⟨stem, extension, hstem, heq, hplain, hmarkup⟩
    exact ⟨extension, ⟨stem, hstem, heq, hplain⟩, hmarkup⟩

section ListsRoutes

variable {root name : String} {kind kind' : List String → Prop} {paths paths' : List String}

theorem ListsRoutes.congr (h : ListsRoutes root kind paths) (heq : ∀ route, kind route ↔ kind' route) :
    ListsRoutes root kind' paths := by
  obtain ⟨routes, hpaths, hordered, hmem⟩ := h
  exact ⟨routes, hpaths, hordered, fun route => (hmem route).trans (heq route)⟩

theorem listsRoutes_nil (h : ∀ route, ¬kind route) : ListsRoutes root kind [] :=
  ⟨[], rfl, .nil, fun route => iff_of_false (List.not_mem_nil) (h route)⟩

theorem listsRoutes_root (h : ∀ route, kind route ↔ route = []) : ListsRoutes root kind [root] :=
  ⟨[[]], rfl, List.pairwise_singleton _ _, fun route => List.mem_singleton.trans (h route).symm⟩

theorem ListsRoutes.below (h : ListsRoutes (Path.join root name) kind paths) :
    ListsRoutes root (fun route => ∃ rest, route = name :: rest ∧ kind rest) paths := by
  obtain ⟨routes, rfl, hordered, hmem⟩ := h
  refine ⟨routes.map (name :: ·), ?_, ?_, fun route => ?_⟩
  · rw [List.map_map]
    rfl
  · exact List.pairwise_map.2 (hordered.imp .cons)
  · simp only [List.mem_map, hmem]
    exact exists_congr fun rest => and_comm.trans (and_congr_left' eq_comm)

theorem ListsRoutes.append (h : ListsRoutes root kind paths) (h' : ListsRoutes root kind' paths')
    (hbefore : ∀ route route', kind route → kind' route' → List.Lex (· < ·) route route') :
    ListsRoutes root (fun route => kind route ∨ kind' route) (paths ++ paths') := by
  obtain ⟨routes, rfl, hordered, hmem⟩ := h
  obtain ⟨routes', rfl, hordered', hmem'⟩ := h'
  refine ⟨routes ++ routes', List.map_append.symm, ?_, fun route => ?_⟩
  · refine List.pairwise_append.2 ⟨hordered, hordered', fun route hroute route' hroute' => ?_⟩
    exact hbefore route route' ((hmem route).1 hroute) ((hmem' route').1 hroute')
  · rw [List.mem_append, hmem, hmem']

theorem listsRoutes_flatMap {entries : List (String × FileTree)}
    (hordered : entries.Pairwise fun a b => a.1 < b.1) {below : String × FileTree → List String}
    {inner : String × FileTree → List String → Prop}
    (h : ∀ entry ∈ entries, ListsRoutes (Path.join root entry.1) (inner entry) (below entry)) :
    ListsRoutes root (fun route => ∃ entry ∈ entries, ∃ rest, route = entry.1 :: rest ∧
      inner entry rest) (entries.flatMap below) := by
  induction entries with
  | nil => exact listsRoutes_nil fun route ⟨entry, hmem, _⟩ => List.not_mem_nil hmem
  | cons entry rest ih =>
      obtain ⟨hbefore, hrest⟩ := List.pairwise_cons.1 hordered
      obtain ⟨hentry, hothers⟩ := List.forall_mem_cons.1 h
      refine (hentry.below.append (ih hrest hothers) ?_).congr fun route => ?_
      · rintro _ _ ⟨_, rfl, -⟩ ⟨other, hother, _, rfl, -⟩
        exact .rel (hbefore other hother)
      · rw [List.exists_mem_cons_iff]

theorem ListsRoutes.nodup (h : ListsRoutes root kind paths)
    (hnames : ∀ route, kind route → ∀ name ∈ route, Path.IsName name) : paths.Nodup := by
  obtain ⟨routes, rfl, hordered, hmem⟩ := h
  refine List.Nodup.map_on (fun route hroute route' hroute' => ?_) ?_
  · exact Path.descend_injective root
      (Path.isSegment_of_isName (hnames route ((hmem route).1 hroute)))
      (Path.isSegment_of_isName (hnames route' ((hmem route').1 hroute')))
  · refine hordered.imp fun {route route'} hlex => ?_
    rintro rfl
    exact List.lex_irrefl String.lt_irrefl route hlex

end ListsRoutes

namespace FileTree

variable {tree : FileTree} {entries : List (String × FileTree)}

def filesOfEntry (path : String) (entry : String × FileTree) : List String :=
  if entry.1 = skippedDirectory && !entry.2.isFile then []
  else markupFiles (Path.join path entry.1) entry.2

theorem markupFilesOf_eq (path : String) (entries : List (String × FileTree)) :
    markupFilesOf path entries = entries.map fun entry => (entry.1, filesOfEntry path entry) := by
  induction entries with
  | nil => rw [markupFilesOf, List.map_nil]
  | cons entry rest ih => rw [markupFilesOf, ih]; rfl

theorem markupFiles_directory (path : String) (entries : List (String × FileTree)) :
    markupFiles path (.directory entries) =
      (entries.mergeSort fun a b => a.1 ≤ b.1).flatMap (filesOfEntry path) := by
  have hsort : (entries.map fun entry => (entry.1, filesOfEntry path entry)).mergeSort
      (fun a b => a.1 ≤ b.1) =
        (entries.mergeSort fun a b => a.1 ≤ b.1).map fun entry => (entry.1, filesOfEntry path entry) := by
    rw [List.map_mergeSort]
    exact fun _ _ _ _ => rfl
  rw [markupFiles, markupFilesOf_eq, hsort, List.flatMap_map]

structure ReachesMarkup (path : String) (tree : FileTree) (route : List String) : Prop where
  leads : ∃ bytes, Leads tree route (.file bytes)
  language : (Language.ofPath? (Path.descend path route)).isSome = true
  unskipped : skippedDirectory ∉ route.dropLast

theorem unskipped_cons_iff {name : String} {inner : FileTree} {rest : List String}
    {bytes : ByteArray} (h : Leads inner rest (.file bytes)) :
    skippedDirectory ∉ (name :: rest).dropLast ↔
      (name = skippedDirectory && !inner.isFile) = false ∧ skippedDirectory ∉ rest.dropLast := by
  cases inner with
  | file content =>
      obtain ⟨rfl, -⟩ := leads_file_iff.1 h
      simp [isFile]
  | directory entries =>
      obtain ⟨entry, -, rest, rfl, -⟩ := leads_directory_iff.1 h
      simp [isFile, List.dropLast_cons_of_ne_nil, eq_comm]

theorem reachesMarkup_directory_iff {path : String} {route : List String} :
    ReachesMarkup path (.directory entries) route ↔
      ∃ entry ∈ entries, ∃ rest, route = entry.1 :: rest ∧
        (entry.1 = skippedDirectory && !entry.2.isFile) = false ∧
          ReachesMarkup (Path.join path entry.1) entry.2 rest := by
  constructor
  · rintro ⟨⟨bytes, hleads⟩, hlanguage, hunskipped⟩
    obtain ⟨entry, hmem, rest, rfl, hinner⟩ := leads_directory_iff.1 hleads
    obtain ⟨hentry, hrest⟩ := (unskipped_cons_iff hinner).1 hunskipped
    exact ⟨entry, hmem, rest, rfl, hentry, ⟨bytes, hinner⟩, hlanguage, hrest⟩
  · rintro ⟨entry, hmem, rest, rfl, hentry, ⟨bytes, hinner⟩, hlanguage, hrest⟩
    exact ⟨⟨bytes, leads_directory_iff.2 ⟨entry, hmem, rest, rfl, hinner⟩⟩, hlanguage,
      (unskipped_cons_iff hinner).2 ⟨hentry, hrest⟩⟩

theorem listsRoutes_markupFiles (h : tree.WellNamed) (path : String) :
    ListsRoutes path (ReachesMarkup path tree) (markupFiles path tree) := by
  induction h generalizing path with
  | file bytes =>
      have hkind (route : List String) : ReachesMarkup path (.file bytes) route ↔
          route = [] ∧ (Language.ofPath? path).isSome = true := by
        constructor
        · rintro ⟨⟨_, hleads⟩, hlanguage, -⟩
          obtain ⟨rfl, -⟩ := leads_file_iff.1 hleads
          exact ⟨rfl, hlanguage⟩
        · rintro ⟨rfl, hlanguage⟩
          exact ⟨⟨bytes, .here _⟩, hlanguage, List.not_mem_nil⟩
      rw [markupFiles]
      split
      · next hsome => exact listsRoutes_root fun route => (hkind route).trans (and_iff_left hsome)
      · next hnone => exact listsRoutes_nil fun route hroute => hnone ((hkind route).1 hroute).2
  | @directory entries hnodup _ _ ih =>
      have hmem (entry : String × FileTree) :
          entry ∈ entries.mergeSort (fun a b => a.1 ≤ b.1) ↔ entry ∈ entries := List.mem_mergeSort
      -- each entry is listed on its own, and from its own path on
      have hentries : ∀ entry ∈ entries.mergeSort (fun a b => a.1 ≤ b.1),
          ListsRoutes (Path.join path entry.1)
            (fun rest => (entry.1 = skippedDirectory && !entry.2.isFile) = false ∧
              ReachesMarkup (Path.join path entry.1) entry.2 rest) (filesOfEntry path entry) := by
        intro entry hentry
        rw [filesOfEntry]
        split
        · next hskipped =>
            exact listsRoutes_nil fun rest hrest => Bool.false_ne_true (hrest.1.symm.trans hskipped)
        · next hkept =>
            exact (ih entry ((hmem entry).1 hentry) _).congr fun rest =>
              (and_iff_right (Bool.eq_false_iff.2 hkept)).symm
      rw [markupFiles_directory]
      refine (listsRoutes_flatMap (pairwise_lt_mergeSort Prod.fst hnodup) hentries).congr
        fun route => ?_
      simp only [hmem, reachesMarkup_directory_iff]

theorem reachesMarkup_iff (h : (directory entries).WellNamed) (path : String) (route : List String) :
    ReachesMarkup path (.directory entries) route ↔ MarkupRoute (.directory entries) route := by
  have hlanguage {bytes : ByteArray} (hleads : Leads (.directory entries) route (.file bytes)) :
      (Language.ofPath? (Path.descend path route)).isSome = true ↔
        ∃ name ∈ route.getLast?, HasMarkupExtension name := by
    rcases List.eq_nil_or_concat' route with rfl | ⟨front, last, rfl⟩
    · obtain ⟨_, _, _, hnil, _⟩ := leads_directory_iff.1 hleads
      cases hnil
    · have hlast : Path.IsName last :=
        hleads.isName h last (List.mem_append_right front (List.mem_singleton_self last))
      have hpath : Path.descend path (front ++ [last]) = Path.join (Path.descend path front) last :=
        List.foldl_append
      rw [hpath, isSome_ofPath?_join _ hlast, List.getLast?_concat]
      simp
  constructor
  · rintro ⟨⟨bytes, hleads⟩, hmarkup, hunskipped⟩
    exact ⟨⟨bytes, hleads⟩, (hlanguage hleads).1 hmarkup, hunskipped⟩
  · rintro ⟨⟨bytes, hleads⟩, hmarkup, hunskipped⟩
    exact ⟨⟨bytes, hleads⟩, (hlanguage hleads).2 hmarkup, hunskipped⟩

end FileTree

theorem discovers_ofRoot {files : FileSystem} (h : files.root.WellNamed) (root : String) :
    Discovers files root (Inputs.ofRoot files root) where
  file bytes hfind := by rw [Inputs.ofRoot, hfind]
  missing hfind := by rw [Inputs.ofRoot, hfind]
  directory entries hfind := by
    have htree := FileSystem.wellNamed_of_find? h hfind
    have hlists := (FileTree.listsRoutes_markupFiles htree root).congr
      (FileTree.reachesMarkup_iff htree root)
    rw [Inputs.ofRoot, hfind]
    refine ⟨rfl, hlists.nodup fun route hroute => ?_, hlists⟩
    obtain ⟨bytes, hleads⟩ := hroute.leads
    exact hleads.isName htree

theorem foldl_append_inputs (inputs : List Inputs) (done : Inputs) :
    inputs.foldl Inputs.append done =
      ⟨done.files ++ inputs.flatMap (·.files), done.failures ++ inputs.flatMap (·.failures)⟩ := by
  induction inputs generalizing done with
  | nil => simp
  | cons found rest ih => simp [ih, Inputs.append]

theorem ofRoots_eq (files : FileSystem) (roots : List String) : Inputs.ofRoots files roots =
    ⟨(roots.map (Inputs.ofRoot files)).flatMap (·.files),
      (roots.map (Inputs.ofRoot files)).flatMap (·.failures)⟩ := by
  rw [Inputs.ofRoots, foldl_append_inputs]
  rfl

theorem files_discovered {files : FileSystem} (h : files.root.WellNamed) (roots : List String) :
    ∃ found : List Inputs, List.Forall₂ (Discovers files) roots found ∧
      Inputs.ofRoots files roots =
        ⟨found.flatMap (·.files), found.flatMap (·.failures)⟩ := by
  refine ⟨roots.map (Inputs.ofRoot files), ?_, ofRoots_eq files roots⟩
  rw [List.forall₂_map_right_iff, List.forall₂_same]
  exact fun root _ => discovers_ofRoot h root

def nestedPages : List (String × FileTree) :=
  [("index.html", .file .empty),
    ("node_modules", .directory [("hidden.html", .file .empty)]),
    ("Pages", .directory [("about.HTM", .file .empty), ("node_modules", .file .empty),
      (".html", .file .empty), ("feed.xhtml", .file .empty)])]

def nestedSite : FileSystem where
  root := .directory
    [("site", .directory nestedPages), ("node_modules", .directory [("readme.htm", .file .empty)])]
  workingDirectory := "/"

theorem files_discovered_nested :
    let roots := ["site/", "node_modules", "site/Pages/feed.xhtml", "lost"]
    nestedSite.root.WellNamed ∧
      Inputs.ofRoots nestedSite roots =
        ⟨["site/Pages/about.HTM", "site/index.html", "node_modules/readme.htm",
          "site/Pages/feed.xhtml"], ["lost: No such file or directory"]⟩ ∧
      ∃ found : List Inputs, List.Forall₂ (Discovers nestedSite) roots found ∧
        Inputs.ofRoots nestedSite roots =
          ⟨found.flatMap (·.files), found.flatMap (·.failures)⟩ := by
  intro roots
  have hnamed : nestedSite.root.WellNamed := by
    have hnames : ∀ name ∈ ["site", "index.html", "node_modules", "hidden.html", "Pages", "about.HTM",
        ".html", "feed.xhtml", "readme.htm"], Path.IsName name := by decide +kernel
    simp [nestedSite, nestedPages, FileTree.wellNamed_directory_iff, FileTree.WellNamed.file, hnames]
  have hsite : nestedSite.find? "site/" = some (.directory nestedPages) := rfl
  have hmodules : nestedSite.find? "node_modules" =
      some (.directory [("readme.htm", .file .empty)]) := rfl
  have hfeed : nestedSite.find? "site/Pages/feed.xhtml" = some (.file .empty) := rfl
  have hlost : nestedSite.find? "lost" = none := rfl
  have hpages : (FileTree.directory nestedPages).markupFiles "site/" =
      ["site/Pages/about.HTM", "site/index.html"] := by
    simp [nestedPages, FileTree.markupFiles, FileTree.markupFilesOf, skippedDirectory,
      FileTree.isFile, List.mergeSort, List.MergeSort.Internal.splitInTwo]
    decide +kernel
  have hreadme : (FileTree.directory [("readme.htm", .file .empty)]).markupFiles "node_modules" =
      ["node_modules/readme.htm"] := by
    simp [FileTree.markupFiles, FileTree.markupFilesOf, skippedDirectory, FileTree.isFile]
    decide +kernel
  refine ⟨hnamed, ?_, files_discovered hnamed roots⟩
  simp only [roots, Inputs.ofRoots, Inputs.ofRoot, hsite, hmodules, hfeed, hlost, hpages, hreadme,
    List.map_cons, List.map_nil]
  decide +kernel

end HtmlIds
