import HtmlIds.OrderedMap
import Mathlib.Data.List.Induction
import Mathlib.Data.List.Nodup

namespace HtmlIds.OrderedMap

variable {α : Type}

@[simp] theorem find?_empty (key : String) : (empty : OrderedMap α).find? key = none := rfl

theorem lookup_cons_ite (key : String) (entry : String × α) (rest : List (String × α)) :
    (entry :: rest).lookup key = if key = entry.1 then some entry.2 else rest.lookup key := by
  obtain ⟨first, value⟩ := entry
  rw [List.lookup_cons]
  by_cases h : key = first
  · simp [h]
  · simp [h, beq_eq_false_iff_ne.2 h]

theorem lookup_place (key key' : String) (value : α) (list : List (String × α)) :
    (place key value list).lookup key' = if key' = key then some value else list.lookup key' := by
  induction list with
  | nil => simp [place, lookup_cons_ite]
  | cons first rest ih =>
      simp only [place]
      split
      · exact lookup_cons_ite key' (key, value) _
      · split
        · next heq =>
            rw [lookup_cons_ite, lookup_cons_ite, ← heq]
            split <;> rfl
        · next hne =>
            rw [lookup_cons_ite, lookup_cons_ite, ih]
            by_cases hk : key' = first.1
            · have hk' : key' ≠ key := fun e => hne (e.symm.trans hk)
              rw [if_pos hk, if_neg hk', if_pos hk]
            · rw [if_neg hk, if_neg hk]

@[simp] theorem find?_insert (m : OrderedMap α) (key key' : String) (value : α) :
    (m.insert key value).find? key' = if key' = key then some value else m.find? key' :=
  lookup_place key key' value m.entries

theorem lookup_filter_ne (key key' : String) (list : List (String × α)) :
    (list.filter fun entry => entry.1 ≠ key).lookup key' =
      if key' = key then none else list.lookup key' := by
  induction list with
  | nil => simp
  | cons first rest ih =>
      by_cases hf : first.1 = key
      · rw [List.filter_cons_of_neg (by simpa using hf), ih, lookup_cons_ite, hf]
        split <;> rfl
      · rw [List.filter_cons_of_pos (by simpa using hf), lookup_cons_ite, lookup_cons_ite, ih]
        by_cases hk : key' = first.1
        · have hk' : key' ≠ key := fun e => hf (hk.symm.trans e)
          rw [if_pos hk, if_neg hk', if_pos hk]
        · rw [if_neg hk, if_neg hk]

@[simp] theorem find?_erase (m : OrderedMap α) (key key' : String) :
    (m.erase key).find? key' = if key' = key then none else m.find? key' :=
  lookup_filter_ne key key' m.entries

theorem lookup_eq_some_iff {key : String} {value : α} {list : List (String × α)}
    (h : list.Pairwise fun a b => a.1 < b.1) :
    list.lookup key = some value ↔ (key, value) ∈ list := by
  induction list with
  | nil => simp
  | cons first rest ih =>
      obtain ⟨hfirst, hrest⟩ := List.pairwise_cons.1 h
      rw [lookup_cons_ite, List.mem_cons, ← ih hrest]
      by_cases hk : key = first.1
      · have hnot : rest.lookup key ≠ some value := fun hl =>
          String.lt_irrefl key (hk ▸ hfirst (key, value) ((ih hrest).1 hl) : key < key)
        rw [if_pos hk, or_iff_left hnot, Option.some.injEq, Prod.ext_iff, and_iff_right hk]
        exact eq_comm
      · have hnot : (key, value) ≠ first := fun e => hk (congrArg Prod.fst e)
        rw [if_neg hk, or_iff_right hnot]

theorem find?_eq_some_iff {m : OrderedMap α} {key : String} {value : α} :
    m.find? key = some value ↔ (key, value) ∈ m.entries :=
  lookup_eq_some_iff m.ascending

theorem contains_iff {m : OrderedMap α} {key : String} :
    m.contains key = true ↔ ∃ value, m.find? key = some value :=
  Option.isSome_iff_exists

theorem mem_keys_iff {m : OrderedMap α} {key : String} :
    key ∈ m.keys ↔ m.contains key = true := by
  simp only [contains_iff, find?_eq_some_iff, keys, List.mem_map]
  constructor
  · rintro ⟨entry, hmem, rfl⟩
    exact ⟨entry.2, hmem⟩
  · rintro ⟨value, hmem⟩
    exact ⟨(key, value), hmem, rfl⟩

theorem keys_ascending (m : OrderedMap α) : m.keys.Pairwise (· < ·) :=
  List.pairwise_map.2 m.ascending

theorem keys_nodup (m : OrderedMap α) : m.keys.Nodup := by
  apply m.keys_ascending.imp
  intro a b h e
  exact String.lt_irrefl b (e ▸ h)

theorem entries_nodup (m : OrderedMap α) : m.entries.Nodup :=
  List.Nodup.of_map Prod.fst m.keys_nodup

theorem ext_find? {m n : OrderedMap α} (h : ∀ key, m.find? key = n.find? key) : m = n := by
  have hmem (entry : String × α) : entry ∈ m.entries ↔ entry ∈ n.entries := by
    obtain ⟨key, value⟩ := entry
    rw [← find?_eq_some_iff, ← find?_eq_some_iff, h]
  have hperm : m.entries.Perm n.entries :=
    (List.perm_ext_iff_of_nodup m.entries_nodup n.entries_nodup).2 hmem
  exact ext_entries (hperm.eq_of_pairwise
    (fun _ _ _ _ hlt hgt => absurd hgt (String.lt_asymm hlt)) m.ascending n.ascending)

theorem place_of_forall_lt {key : String} {list : List (String × α)}
    (h : ∀ entry ∈ list, entry.1 < key) (value : α) :
    place key value list = list ++ [(key, value)] := by
  induction list with
  | nil => rfl
  | cons first rest ih =>
      have hfirst : first.1 < key := h first List.mem_cons_self
      have hne : key ≠ first.1 := fun e => String.lt_irrefl key (e ▸ hfirst)
      rw [place, if_neg (String.lt_asymm hfirst), if_neg hne,
        ih fun entry hmem => h entry (List.mem_cons_of_mem first hmem)]
      rfl

theorem entries_foldl_insert (list : List (String × α)) (m : OrderedMap α)
    (h : (m.entries ++ list).Pairwise fun a b => a.1 < b.1) :
    (list.foldl (fun m entry => m.insert entry.1 entry.2) m).entries = m.entries ++ list := by
  induction list generalizing m with
  | nil => exact (List.append_nil m.entries).symm
  | cons entry rest ih =>
      have hbelow : ∀ a ∈ m.entries, a.1 < entry.1 := fun a ha =>
        (List.pairwise_append.1 h).2.2 a ha entry List.mem_cons_self
      have hentries : (m.insert entry.1 entry.2).entries = m.entries ++ [entry] :=
        place_of_forall_lt hbelow entry.2
      rw [List.append_cons] at h ⊢
      rw [List.foldl_cons, ih _ (hentries ▸ h), hentries]

theorem ofList_entries (m : OrderedMap α) : ofList m.entries = m :=
  ext_entries (entries_foldl_insert m.entries empty m.ascending)

def valuesOf (key : String) (entries : List (String × α)) : List α :=
  (entries.filter fun entry => entry.1 = key).map Prod.snd

theorem mem_valuesOf {key : String} {value : α} {entries : List (String × α)} :
    value ∈ valuesOf key entries ↔ (key, value) ∈ entries := by
  simp only [valuesOf, List.mem_map, List.mem_filter, decide_eq_true_eq]
  constructor
  · rintro ⟨entry, ⟨hmem, rfl⟩, rfl⟩
    exact hmem
  · intro hmem
    exact ⟨(key, value), ⟨hmem, rfl⟩, rfl⟩

theorem valuesOf_cons (key : String) (entry : String × α) (rest : List (String × α)) :
    valuesOf key (entry :: rest) =
      if key = entry.1 then entry.2 :: valuesOf key rest else valuesOf key rest := by
  by_cases h : key = entry.1
  · simp [valuesOf, h]
  · have h' : entry.1 ≠ key := fun e => h e.symm
    simp [valuesOf, h, h']

theorem valuesOf_append (key : String) (front back : List (String × α)) :
    valuesOf key (front ++ back) = valuesOf key front ++ valuesOf key back := by
  simp [valuesOf]

theorem valuesOf_eq_nil_iff {key : String} {entries : List (String × α)} :
    valuesOf key entries = [] ↔ key ∉ entries.map Prod.fst := by
  rw [List.eq_nil_iff_forall_not_mem, List.mem_map]
  simp only [mem_valuesOf]
  constructor
  · rintro h ⟨entry, hentry, rfl⟩
    exact h entry.2 hentry
  · exact fun h value hvalue => h ⟨(key, value), hvalue, rfl⟩

theorem getLast?_valuesOf_iff {key : String} {value : α} {entries : List (String × α)} :
    (valuesOf key entries).getLast? = some value ↔ ∃ earlier later,
      entries = earlier ++ (key, value) :: later ∧ key ∉ later.map Prod.fst := by
  constructor
  · intro h
    induction entries using List.reverseRecOn with
    | nil => cases h
    | append_singleton entries entry ih =>
        rw [valuesOf_append, valuesOf_cons] at h
        by_cases hkey : key = entry.1
        · subst hkey
          have hvalue : entry.2 = value := by simpa [valuesOf] using h
          exact ⟨entries, [], by rw [← hvalue], List.not_mem_nil⟩
        · rw [if_neg hkey] at h
          obtain ⟨earlier, later, rfl, hlater⟩ := ih (by simpa [valuesOf] using h)
          exact ⟨earlier, later ++ [entry], by simp, by simpa [hkey] using hlater⟩
  · rintro ⟨earlier, later, rfl, hlater⟩
    rw [valuesOf_append, valuesOf_cons, if_pos rfl, valuesOf_eq_nil_iff.2 hlater]
    exact List.getLast?_concat ..

theorem valuesOf_map_snd {β : Type} (f : α → β) (key : String) (entries : List (String × α)) :
    valuesOf key (entries.map fun entry => (entry.1, f entry.2)) = (valuesOf key entries).map f := by
  simp [valuesOf, List.filter_map, Function.comp_def]

theorem find?_foldl_insert (entries : List (String × α)) (m : OrderedMap α) (key : String) :
    (entries.foldl (fun m entry => m.insert entry.1 entry.2) m).find? key =
      (valuesOf key entries).getLast?.or (m.find? key) := by
  induction entries generalizing m with
  | nil => rfl
  | cons entry rest ih =>
      rw [List.foldl_cons, ih, find?_insert, valuesOf_cons]
      by_cases hk : key = entry.1
      · simp [hk, List.getLast?_cons]
      · simp [hk]

theorem find?_ofList (entries : List (String × α)) (key : String) :
    (ofList entries).find? key = (valuesOf key entries).getLast? := by
  rw [ofList, find?_foldl_insert, find?_empty, Option.or_none]

theorem ofList_of_perm {entries : List (String × α)} {m : OrderedMap α}
    (h : entries.Perm m.entries) : ofList entries = m := by
  have hkeys : (entries.map Prod.fst).Nodup := (h.map Prod.fst).nodup_iff.2 m.keys_nodup
  refine ext_find? fun key => Option.ext fun value => ?_
  rw [find?_ofList, getLast?_valuesOf_iff, find?_eq_some_iff, ← h.mem_iff]
  constructor
  · rintro ⟨earlier, later, rfl, -⟩
    exact List.mem_append_right earlier List.mem_cons_self
  · intro hmem
    obtain ⟨earlier, later, rfl⟩ := List.append_of_mem hmem
    rw [List.map_append, List.map_cons] at hkeys
    exact ⟨earlier, later, rfl, (List.nodup_cons.1 (List.nodup_append.1 hkeys).2.1).1⟩

theorem find?_collect_from (entries : List (String × α)) (m : OrderedMap (List α)) (key : String) :
    (entries.foldl (fun m entry => m.insert entry.1 ((m.find? entry.1).getD [] ++ [entry.2])) m).find?
        key =
      if valuesOf key entries = [] then m.find? key
      else some ((m.find? key).getD [] ++ valuesOf key entries) := by
  induction entries generalizing m with
  | nil => simp [valuesOf]
  | cons entry rest ih =>
      rw [List.foldl_cons, ih, find?_insert, valuesOf_cons]
      by_cases hk : key = entry.1
      · subst hk
        by_cases hv : valuesOf entry.1 rest = [] <;> simp [hv]
      · simp [hk]

theorem find?_collect (entries : List (String × α)) (key : String) :
    (collect entries).find? key =
      if valuesOf key entries = [] then none else some (valuesOf key entries) := by
  rw [collect, find?_collect_from]
  rfl

theorem ne_nil_of_find?_collect {entries : List (String × α)} {key : String} {values : List α}
    (h : (collect entries).find? key = some values) : values ≠ [] := by
  rw [find?_collect] at h
  split at h
  · cases h
  · next hne => exact Option.some.inj h ▸ hne

end HtmlIds.OrderedMap
