import HtmlIds.Path
import HtmlIds.Proofs.Text.Pieces
import HtmlIds.Proofs.Text.Run
import Mathlib.Data.List.TakeWhile

namespace HtmlIds.Path

structure IsName (name : String) : Prop where
  nonempty : name ≠ ""
  dot : name ≠ "."
  dots : name ≠ ".."
  slash : '/' ∉ name.toList

structure IsSegment (segment : String) : Prop where
  nonempty : segment ≠ ""
  dot : segment ≠ "."
  slash : '/' ∉ segment.toList

instance (name : String) : Decidable (IsName name) :=
  decidable_of_iff (name ≠ "" ∧ name ≠ "." ∧ name ≠ ".." ∧ '/' ∉ name.toList)
    ⟨fun ⟨hempty, hdot, hdots, hslash⟩ => ⟨hempty, hdot, hdots, hslash⟩,
      fun h => ⟨h.nonempty, h.dot, h.dots, h.slash⟩⟩

def descend (base : String) (names : List String) : String :=
  names.foldl join base

def gap (base : String) : List Char :=
  if base = "" ∨ base.toList.getLast? = some '/' then [] else ['/']

variable {base path name extension : String} {names names' : List String}

theorem IsName.isSegment (h : IsName name) : IsSegment name :=
  ⟨h.nonempty, h.dot, h.slash⟩

theorem isSegment_of_isName (h : ∀ name ∈ names, IsName name) : ∀ name ∈ names, IsSegment name :=
  fun name hname => (h name hname).isSegment

theorem IsSegment.toList_ne_nil (h : IsSegment name) : name.toList ≠ [] :=
  mt String.toList_eq_nil_iff.1 h.nonempty

theorem pieces_segments (hne : names ≠ []) (h : ∀ name ∈ names, IsSegment name) :
    pieces '/' (joinPieces '/' (names.map String.toList)) = names.map String.toList := by
  refine pieces_joinPieces (mt List.map_eq_nil_iff.1 hne) ?_
  rw [List.forall_mem_map]
  exact fun name hname => (h name hname).slash

theorem IsSegment.namesNothing_eq (h : IsSegment name) : namesNothing name.toList = false := by
  have hdot : name.toList ≠ ['.'] := fun heq => h.dot (String.toList_injective heq)
  simp [namesNothing, h.toList_ne_nil, hdot]

theorem toList_join (base : String) (h : IsSegment name) :
    (join base name).toList = base.toList ++ gap base ++ name.toList := by
  have hrelative : isAbsolute name = false := by
    simp only [isAbsolute, beq_eq_false_iff_ne]
    exact fun hhead => h.slash (List.mem_of_mem_head? hhead)
  unfold join gap
  by_cases hempty : base = ""
  · simp [hempty]
  · by_cases hslash : base.toList.getLast? = some '/' <;> simp [hrelative, hempty, hslash]

theorem pieces_join (base : String) (h : IsName name) :
    ∃ before, pieces '/' (join base name).toList = before ++ [name.toList] := by
  rw [toList_join base h.isSegment, gap]
  have hname := pieces_of_not_mem h.slash
  split
  · next hbase =>
      rcases hbase with rfl | hslash
      · exact ⟨[], by simp [hname]⟩
      · obtain ⟨front, hfront⟩ := List.getLast?_eq_some_iff.1 hslash
        refine ⟨pieces '/' front, ?_⟩
        rw [hfront, List.append_nil, List.append_assoc, List.singleton_append, pieces_append_cons,
          hname]
  · refine ⟨pieces '/' base.toList, ?_⟩
    rw [List.append_assoc, List.singleton_append, pieces_append_cons, hname]

theorem fileName?_join (base : String) (h : IsName name) :
    fileName? (join base name) = some name := by
  obtain ⟨before, hbefore⟩ := pieces_join base h
  have hdots : name.toList ≠ ['.', '.'] := fun heq => h.dots (String.toList_injective heq)
  rw [fileName?, outline, hbefore]
  cases before with
  | nil => simp [h.isSegment.namesNothing_eq, hdots]
  | cons first rest => simp [h.isSegment.namesNothing_eq, hdots]

theorem exists_parent?_of_fileName? (h : fileName? path = some name) :
    ∃ directory, parent? path = some directory := by
  rcases houtline : outline path with ⟨first, later⟩
  rw [fileName?, houtline] at h
  cases later with
  | nil =>
      refine ⟨"", ?_⟩
      rw [parent?, houtline]
      refine if_neg ?_
      rintro rfl
      cases h
  | cons last before =>
      rw [parent?, houtline]
      simp only
      split
      · exact ⟨_, rfl⟩
      · exact ⟨_, rfl⟩

theorem exists_fileName?_of_extension? (h : extension? path = some extension) :
    ∃ name, fileName? path = some name := by
  rw [extension?] at h
  split at h
  · cases h
  · next name hname => exact ⟨name, hname⟩

theorem join_ne_empty (base : String) (h : path ≠ "") : join base path ≠ "" := by
  rw [join]
  split
  · exact h
  · split <;> simp [h]

theorem extension?_eq_some_iff (hname : fileName? path = some name) :
    extension? path = some extension ↔
      ∃ stem, stem ≠ "" ∧ name = stem ++ "." ++ extension ∧ '.' ∉ extension.toList := by
  simp only [extension?, hname]
  constructor
  · intro h
    split at h
    · next hlength =>
        have hshorter : (name.toList.reverse.takeWhile (· != '.')).length <
            name.toList.reverse.length := by
          rw [List.length_reverse]
          omega
        obtain ⟨dot, rest, heq, hdot⟩ := exists_eq_run_append hshorter
        have hrun : ∀ c ∈ name.toList.reverse.takeWhile (· != '.'), c ≠ '.' := fun c hc =>
          by simpa using List.mem_takeWhile_imp hc
        generalize name.toList.reverse.takeWhile (· != '.') = run at h hlength heq hrun
        obtain rfl : dot = '.' := by simpa using hdot
        obtain rfl := Option.some.inj h
        have hwhole := congrArg List.reverse heq
        rw [List.reverse_reverse] at hwhole
        refine ⟨String.ofList rest.reverse, ?_, String.toList_injective (by simp [hwhole]), ?_⟩
        · rintro hempty
          have hnil : rest = [] := by simpa using congrArg String.toList hempty
          simp [hwhole, hnil] at hlength
        · rw [String.toList_ofList, List.mem_reverse]
          exact fun hmem => hrun '.' hmem rfl
    · cases h
  · rintro ⟨stem, hstem, rfl, hplain⟩
    have hafter : (stem ++ "." ++ extension).toList.reverse.takeWhile (· != '.') =
        extension.toList.reverse := by
      rw [String.toList_append, String.toList_append, List.reverse_append, List.reverse_append]
      refine takeWhile_append_cons (fun c hc => bne_iff_ne.2 fun hdot => hplain ?_) rfl
      exact hdot ▸ List.mem_reverse.1 hc
    have hlength : extension.toList.length + 1 < (stem ++ "." ++ extension).toList.length := by
      have hpos := List.length_pos_iff.2 (mt String.toList_eq_nil_iff.1 hstem)
      simp only [String.toList_append, List.length_append]
      change _ < _ + 1 + _
      omega
    rw [hafter, List.length_reverse, if_pos hlength, List.reverse_reverse, String.ofList_toList]

theorem descend_cons (base name : String) (names : List String) :
    descend base (name :: names) = descend (join base name) names := rfl

theorem gap_join (base : String) (h : IsSegment name) : gap (join base name) = ['/'] := by
  have htoList := toList_join base h
  refine if_neg ?_
  rintro (hempty | hslash)
  · rw [hempty] at htoList
    exact h.toList_ne_nil (List.append_eq_nil_iff.1 htoList.symm).2
  · rw [htoList, List.getLast?_append_of_ne_nil _ h.toList_ne_nil] at hslash
    exact h.slash (List.mem_of_getLast? hslash)

theorem toList_descend (base : String) (hname : IsSegment name)
    (hnames : ∀ name ∈ names, IsSegment name) :
    (descend base (name :: names)).toList =
      base.toList ++ gap base ++ joinPieces '/' ((name :: names).map String.toList) := by
  induction names generalizing base name with
  | nil => exact toList_join base hname
  | cons next rest ih =>
      -- the base may end in a slash; after the first name each further one has its own
      obtain ⟨hnext, hrest⟩ := List.forall_mem_cons.1 hnames
      have hne : (next :: rest).map String.toList ≠ [] :=
        mt List.map_eq_nil_iff.1 (List.cons_ne_nil next rest)
      rw [descend_cons, ih (join base name) hnext hrest, toList_join base hname,
        gap_join base hname, List.map_cons (a := name), joinPieces_cons _ hne]
      simp only [List.append_assoc, List.singleton_append]

theorem descend_ne_self (base : String) (h : ∀ other ∈ name :: names, IsSegment other) :
    descend base (name :: names) ≠ base := by
  obtain ⟨hname, hnames⟩ := List.forall_mem_cons.1 h
  intro heq
  have htoList := toList_descend base hname hnames
  rw [heq, List.append_assoc, List.self_eq_append_right, List.append_eq_nil_iff] at htoList
  have hpieces := pieces_segments (List.cons_ne_nil name names) h
  rw [htoList.2] at hpieces
  exact hname.toList_ne_nil (List.cons.inj hpieces).1.symm

theorem descend_injective (base : String) (hnames : ∀ name ∈ names, IsSegment name)
    (hnames' : ∀ name ∈ names', IsSegment name) (h : descend base names = descend base names') :
    names = names' := by
  cases names with
  | nil =>
      cases names' with
      | nil => rfl
      | cons name' rest' => exact absurd h.symm (descend_ne_self base hnames')
  | cons name rest =>
      cases names' with
      | nil => exact absurd h (descend_ne_self base hnames)
      | cons name' rest' =>
          obtain ⟨hname, hrest⟩ := List.forall_mem_cons.1 hnames
          obtain ⟨hname', hrest'⟩ := List.forall_mem_cons.1 hnames'
          have hjoined := congrArg String.toList h
          rw [toList_descend base hname hrest, toList_descend base hname' hrest'] at hjoined
          have hpieces := congrArg (pieces '/') (List.append_cancel_left hjoined)
          rw [pieces_segments (List.cons_ne_nil _ _) hnames,
            pieces_segments (List.cons_ne_nil _ _) hnames'] at hpieces
          exact List.map_injective_iff.2 (fun _ _ => String.toList_injective) hpieces

end HtmlIds.Path
