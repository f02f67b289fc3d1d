import HtmlIds.Index
import HtmlIds.Proofs.OrderedMap
import Mathlib.Data.List.Induction

namespace HtmlIds

section FirstOccurrence

variable {α : Type} [BEq α] [LawfulBEq α]

theorem eraseDups_concat (list : List α) (a : α) :
    (list ++ [a]).eraseDups = if a ∈ list then list.eraseDups else list.eraseDups ++ [a] := by
  have hone : [a].eraseDups = [a] := List.eraseDups_cons
  rw [List.eraseDups_append]
  by_cases h : a ∈ list <;> simp [List.removeAll, h, hone]

theorem eraseDups_pairwise (list : List α) :
    list.eraseDups.Pairwise fun a b => list.idxOf a < list.idxOf b := by
  induction list using List.reverseRecOn with
  | nil => exact .nil
  | append_singleton list last ih =>
      have hkept {a : α} (ha : a ∈ list.eraseDups) : (list ++ [last]).idxOf a = list.idxOf a := by
        rw [List.idxOf_append, if_pos (List.mem_eraseDups.1 ha)]
      have hold : list.eraseDups.Pairwise fun a b =>
          (list ++ [last]).idxOf a < (list ++ [last]).idxOf b := by
        refine ih.imp_of_mem fun ha hb hlt => ?_
        rw [hkept ha, hkept hb]
        exact hlt
      rw [eraseDups_concat]
      split
      · exact hold
      · next hnew =>
          refine List.pairwise_append.2 ⟨hold, List.pairwise_singleton _ _, fun a ha b hb => ?_⟩
          obtain rfl := List.mem_singleton.1 hb
          rw [hkept ha, List.idxOf_append, if_neg hnew]
          exact Nat.lt_of_lt_of_le (List.idxOf_lt_length_of_mem (List.mem_eraseDups.1 ha))
            (Nat.le_add_left ..)

theorem eraseDups_nodup (list : List α) : list.eraseDups.Nodup :=
  (eraseDups_pairwise list).imp fun hlt heq => Nat.ne_of_lt hlt (congrArg list.idxOf heq)

end FirstOccurrence

def declaredIds (text : String) : List String :=
  (idDeclarations text).map (·.value)

def declarationsOf (text id : String) : List IdDeclaration :=
  (idDeclarations text).filter fun declaration => declaration.value = id

theorem mem_declarationsOf {text id : String} {declaration : IdDeclaration} :
    declaration ∈ declarationsOf text id ↔
      declaration ∈ idDeclarations text ∧ declaration.value = id := by
  simp [declarationsOf]

theorem length_declarationsOf (text id : String) :
    (declarationsOf text id).length = (declaredIds text).count id := by
  rw [declarationsOf, declaredIds, List.count_eq_countP, List.countP_map,
    List.countP_eq_length_filter]
  rfl

theorem declarationsOf_eq_nil_iff {text id : String} :
    declarationsOf text id = [] ↔ id ∉ declaredIds text := by
  rw [← List.length_eq_zero_iff, length_declarationsOf, List.count_eq_zero]

namespace Index

variable {index : Index} {entries : List (String × Site)}

theorem sites?_addSite (index : Index) (id id' : String) (site : Site) :
    (index.addSite id site).sites? id' =
      if id' = id then some ((index.sites? id).getD [] ++ [site]) else index.sites? id' := by
  simp only [sites?, addSite]
  cases hid : index.sites.find? id <;> exact OrderedMap.find?_insert ..

theorem order_addSite (index : Index) (id : String) (site : Site) :
    (index.addSite id site).order =
      if (index.sites? id).isSome then index.order else index.order ++ [id] := by
  unfold sites? addSite
  split <;> next hid => rw [hid]; rfl

structure Holds (index : Index) (entries : List (String × Site)) : Prop where
  order : index.order = (entries.map Prod.fst).eraseDups
  sites : ∀ id, index.sites? id =
    if id ∈ entries.map Prod.fst then some (OrderedMap.valuesOf id entries) else none

theorem Holds.getD_sites? (h : index.Holds entries) (id : String) :
    (index.sites? id).getD [] = OrderedMap.valuesOf id entries := by
  rw [h.sites]
  split
  · rfl
  · next hfresh => exact (OrderedMap.valuesOf_eq_nil_iff.2 hfresh).symm

theorem Holds.addSite (h : index.Holds entries) (entry : String × Site) :
    (index.addSite entry.1 entry.2).Holds (entries ++ [entry]) := by
  have hkeys : (entries ++ [entry]).map Prod.fst = entries.map Prod.fst ++ [entry.1] :=
    List.map_append
  refine ⟨?_, fun id => ?_⟩
  · rw [order_addSite, h.sites, h.order, hkeys, eraseDups_concat]
    by_cases hmem : entry.1 ∈ entries.map Prod.fst
    · rw [if_pos hmem, if_pos hmem]
      rfl
    · rw [if_neg hmem, if_neg hmem]
      rfl
  · rw [sites?_addSite, hkeys, OrderedMap.valuesOf_append, h.getD_sites?]
    have hone : OrderedMap.valuesOf id [entry] = if id = entry.1 then [entry.2] else [] :=
      OrderedMap.valuesOf_cons id entry []
    rw [hone]
    by_cases heq : id = entry.1
    · subst heq
      rw [if_pos rfl, if_pos List.mem_concat_self, if_pos rfl]
    · have hmem : id ∈ entries.map Prod.fst ++ [entry.1] ↔ id ∈ entries.map Prod.fst := by
        rw [List.mem_append, List.mem_singleton, or_iff_left heq]
      rw [if_neg heq, if_neg heq, List.append_nil, h.sites]
      exact if_congr hmem.symm rfl rfl

theorem Holds.foldl {done : List (String × Site)} (h : index.Holds done)
    (entries : List (String × Site)) :
    (entries.foldl (fun index entry => index.addSite entry.1 entry.2) index).Holds
      (done ++ entries) := by
  induction entries generalizing index done with
  | nil => rwa [List.append_nil]
  | cons entry rest ih =>
      rw [List.append_cons]
      exact ih (h.addSite entry)

theorem holds_build (uri : Uri) (text : String) :
    (build uri text).Holds
      ((idDeclarations text).map fun d => (d.value, siteOf uri (.ofText text) d)) := by
  have hempty : empty.Holds [] := ⟨List.eraseDups_nil.symm, fun id => rfl⟩
  have hrun := hempty.foldl ((idDeclarations text).map fun d => (d.value, siteOf uri (.ofText text) d))
  rw [List.foldl_map] at hrun
  exact ⟨hrun.order, hrun.sites⟩

theorem order_build (uri : Uri) (text : String) :
    (build uri text).order = (declaredIds text).eraseDups := by
  rw [(holds_build uri text).order, List.map_map]
  rfl

theorem sites?_build (uri : Uri) (text id : String) :
    (build uri text).sites? id =
      if id ∈ declaredIds text then
        some ((declarationsOf text id).map (siteOf uri (.ofText text)))
      else none := by
  rw [(holds_build uri text).sites, List.map_map, OrderedMap.valuesOf, List.filter_map, List.map_map]
  rfl

theorem groups_build (uri : Uri) (text : String) :
    (build uri text).groups = (declaredIds text).eraseDups.map fun id =>
      (id, (declarationsOf text id).map (siteOf uri (.ofText text))) := by
  rw [groups, order_build, ← List.filterMap_eq_map]
  refine List.filterMap_congr fun id hid => ?_
  rw [sites?_build, if_pos (List.mem_eraseDups.1 hid)]
  rfl

theorem firstSite?_build (uri : Uri) (text id : String) :
    (build uri text).firstSite? id =
      (declarationsOf text id).head?.map (siteOf uri (.ofText text)) := by
  rw [firstSite?, sites?_build]
  split
  · exact List.head?_map
  · next hnot =>
      rw [declarationsOf_eq_nil_iff.2 hnot]
      rfl

end Index

end HtmlIds
