import HtmlIds.Proofs.Index
import HtmlIds.Proofs.Markup.IdDeclarations

namespace HtmlIds

structure IsSiteOf (uri : Uri) (text : String) (d : IdDeclaration) (site : Site) : Prop where
  tag : site.tag = d.tag
  elementType : site.elementType = elementTypeOfTag d.tag
  position : site.position = (LineTable.ofText text).positionAt d.span.start
  document : site.uri = uri

structure GroupsDeclarations (uri : Uri) (text : String) (index : Index) : Prop where
  file : index.file = some uri
  distinct : index.order.Nodup
  declared : ∀ id, id ∈ index.order ↔ ∃ d ∈ idDeclarations text, d.value = id
  ordered : index.order.Pairwise fun id id' =>
    (declaredIds text).idxOf id < (declaredIds text).idxOf id'
  keys : ∀ id, id ∈ index.sites.keys ↔ id ∈ index.order
  absent : ∀ id, index.sites? id = none ↔ ∀ d ∈ idDeclarations text, d.value ≠ id
  sites : ∀ id sites, index.sites? id = some sites →
    List.Forall₂ (IsSiteOf uri text) (declarationsOf text id) sites
  first : ∀ id site, index.firstSite? id = some site ↔
    ∃ d, (idDeclarations text).find? (·.value = id) = some d ∧ IsSiteOf uri text d site
  listed : index.groups.map Prod.fst = index.order ∧ index.groups.Perm index.sites.entries
  whole : ∃ declarations : List IdDeclaration, declarations.Perm (idDeclarations text) ∧
    List.Forall₂ (IsSiteOf uri text) declarations (index.groups.flatMap Prod.snd)
  total : (index.sites.entries.flatMap Prod.snd).length = (idDeclarations text).length

variable {uri : Uri} {text id : String} {index : Index}

theorem isSiteOf_iff {d : IdDeclaration} {site : Site} :
    IsSiteOf uri text d site ↔ site = Index.siteOf uri (.ofText text) d := by
  constructor
  · rintro ⟨htag, htype, hposition, huri⟩
    cases site
    subst htag htype hposition huri
    rfl
  · rintro rfl
    exact ⟨rfl, rfl, rfl, rfl⟩

theorem forall₂_isSiteOf_iff {declarations : List IdDeclaration} {sites : List Site} :
    List.Forall₂ (IsSiteOf uri text) declarations sites ↔
      sites = declarations.map (Index.siteOf uri (.ofText text)) := by
  have hrel : IsSiteOf uri text = fun d site => Index.siteOf uri (.ofText text) d = site := by
    funext d site
    exact propext (isSiteOf_iff.trans eq_comm)
  rw [hrel, ← List.forall₂_map_left_iff (R := Eq), List.forall₂_eq_eq_eq]
  exact eq_comm

theorem mem_declaredIds : id ∈ declaredIds text ↔ ∃ d ∈ idDeclarations text, d.value = id :=
  List.mem_map

theorem flatMap_declarationsOf_perm (text : String) :
    ((declaredIds text).eraseDups.flatMap (declarationsOf text)).Perm (idDeclarations text) := by
  have hnodup := idDeclarations_nodup text
  refine (List.perm_ext_iff_of_nodup (List.nodup_flatMap.2 ⟨?_, ?_⟩) hnodup).2 fun d => ?_
  · exact fun id _ => hnodup.filter _
  · refine (eraseDups_nodup _).imp fun {id id'} hne d hd hd' => hne ?_
    exact (mem_declarationsOf.1 hd).2.symm.trans (mem_declarationsOf.1 hd').2
  · rw [List.mem_flatMap]
    constructor
    · rintro ⟨id, -, hd⟩
      exact (mem_declarationsOf.1 hd).1
    · intro hd
      exact ⟨d.value, List.mem_eraseDups.2 (List.mem_map_of_mem hd), mem_declarationsOf.2 ⟨hd, rfl⟩⟩

namespace Index

theorem mem_order_build : id ∈ (build uri text).order ↔ id ∈ declaredIds text := by
  rw [order_build, List.mem_eraseDups]

theorem sites?_build_eq_none_iff : (build uri text).sites? id = none ↔ id ∉ declaredIds text := by
  rw [sites?_build]
  split <;> simp_all

theorem mem_keys_build : id ∈ (build uri text).sites.keys ↔ id ∈ declaredIds text := by
  rw [OrderedMap.mem_keys_iff, OrderedMap.contains, ← Option.ne_none_iff_isSome]
  exact sites?_build_eq_none_iff.not_left

theorem groups_build_keys (uri : Uri) (text : String) :
    (build uri text).groups.map Prod.fst = (build uri text).order := by
  rw [groups_build, order_build, List.map_map]
  exact List.map_id _

theorem groups_build_perm (uri : Uri) (text : String) :
    (build uri text).groups.Perm (build uri text).sites.entries := by
  have hnodup : (build uri text).groups.Nodup := by
    refine List.Nodup.of_map Prod.fst ?_
    rw [groups_build_keys, order_build]
    exact eraseDups_nodup _
  refine (List.perm_ext_iff_of_nodup hnodup (build uri text).sites.entries_nodup).2 fun group => ?_
  have hsites : group ∈ (build uri text).sites.entries ↔
      (build uri text).sites? group.1 = some group.2 := OrderedMap.find?_eq_some_iff.symm
  rw [hsites, groups, List.mem_filterMap]
  constructor
  · rintro ⟨id, -, hgroup⟩
    obtain ⟨sites, hid, rfl⟩ := Option.map_eq_some_iff.1 hgroup
    exact hid
  · intro hgroup
    refine ⟨group.1, mem_order_build.2 ?_, by rw [hgroup]; rfl⟩
    by_contra hnone
    rw [sites?_build_eq_none_iff.2 hnone] at hgroup
    cases hgroup

theorem groupsDeclarations_build (uri : Uri) (text : String) :
    GroupsDeclarations uri text (build uri text) where
  file := rfl
  distinct := order_build uri text ▸ eraseDups_nodup _
  declared id := mem_order_build.trans mem_declaredIds
  ordered := order_build uri text ▸ eraseDups_pairwise _
  keys id := mem_keys_build.trans mem_order_build.symm
  absent id := by
    rw [sites?_build_eq_none_iff, mem_declaredIds]
    exact ⟨fun h d hd heq => h ⟨d, hd, heq⟩, fun h ⟨d, hd, heq⟩ => h d hd heq⟩
  sites id sites hsites := by
    rw [sites?_build] at hsites
    split at hsites
    · exact forall₂_isSiteOf_iff.2 (Option.some.inj hsites).symm
    · cases hsites
  first id site := by
    rw [firstSite?_build, declarationsOf, List.head?_filter, Option.map_eq_some_iff]
    exact exists_congr fun d => and_congr_right fun _ => eq_comm.trans isSiteOf_iff.symm
  listed := ⟨groups_build_keys uri text, groups_build_perm uri text⟩
  whole := by
    refine ⟨_, flatMap_declarationsOf_perm text, forall₂_isSiteOf_iff.2 ?_⟩
    rw [groups_build, List.flatMap_map, List.map_flatMap]
  total := by
    rw [← ((groups_build_perm uri text).flatMap_right _).length_eq,
      ← (flatMap_declarationsOf_perm text).length_eq, groups_build, List.flatMap_map,
      List.length_flatMap, List.length_flatMap]
    simp only [List.length_map]

end Index

theorem GroupsDeclarations.eq_build (h : GroupsDeclarations uri text index) :
    index = .build uri text := by
  have hbuild := Index.groupsDeclarations_build uri text
  have hfile : index.file = (Index.build uri text).file := h.file.trans hbuild.file.symm
  have horder : index.order = (Index.build uri text).order := by
    have hperm := (List.perm_ext_iff_of_nodup h.distinct hbuild.distinct).2 fun id =>
      (h.declared id).trans (hbuild.declared id).symm
    exact hperm.eq_of_pairwise (fun _ _ _ _ hlt hgt => absurd hgt (Nat.lt_asymm hlt))
      h.ordered hbuild.ordered
  have hsites : index.sites = (Index.build uri text).sites := by
    refine OrderedMap.ext_find? fun id => ?_
    change index.sites? id = (Index.build uri text).sites? id
    cases hfound : index.sites? id with
    | none => exact ((hbuild.absent id).2 ((h.absent id).1 hfound)).symm
    | some sites =>
        cases hbuilt : (Index.build uri text).sites? id with
        | none =>
            rw [(h.absent id).2 ((hbuild.absent id).1 hbuilt)] at hfound
            cases hfound
        | some sites' =>
            rw [forall₂_isSiteOf_iff.1 (h.sites id sites hfound),
              forall₂_isSiteOf_iff.1 (hbuild.sites id sites' hbuilt)]
  change Index.mk index.file index.order index.sites = _
  rw [hfile, horder, hsites]

theorem declarations_grouped (uri : Uri) (text : String) (index : Index) :
    GroupsDeclarations uri text index ↔ index = .build uri text :=
  ⟨fun h => h.eq_build, fun h => h ▸ Index.groupsDeclarations_build uri text⟩

end HtmlIds
