import HtmlIds.Editor.MemberCache
import HtmlIds.Proofs.OrderedMap
import Mathlib.Data.List.Forall2

namespace HtmlIds.MemberCache

def lookups (cache : MemberCache) (types : List String) : MemberCache :=
  types.foldl (fun cache type => (cache.lookup type).2) cache

structure Serves (cache : MemberCache) (database : Database) : Prop where
  database_eq : cache.database = database
  made : ∀ type shared, cache.made.lookup type = some shared →
    shared.entries = (database.members type).map .ofMember

theorem serves_fresh (database : Database) : Serves { database } database :=
  ⟨rfl, nofun⟩

variable {cache : MemberCache} {database : Database}

theorem Serves.entries_lookup (h : Serves cache database) (type : String) :
    (cache.lookup type).1.entries = (database.members type).map .ofMember := by
  unfold lookup
  split
  · next shared hmade => exact h.made type shared hmade
  · rw [h.database_eq]

theorem Serves.lookup (h : Serves cache database) (type : String) :
    Serves (cache.lookup type).2 database := by
  have hentries := h.entries_lookup type
  unfold MemberCache.lookup at hentries ⊢
  split
  · exact h
  · next hnone =>
      rw [hnone] at hentries
      refine ⟨h.database_eq, fun type' shared hmade => ?_⟩
      rw [OrderedMap.lookup_cons_ite] at hmade
      split at hmade
      · next heq =>
          obtain rfl := Option.some.inj hmade
          rw [heq]
          exact hentries
      · exact h.made type' shared hmade

theorem Serves.lookups (h : Serves cache database) (types : List String) :
    Serves (cache.lookups types) database := by
  induction types generalizing cache with
  | nil => exact h
  | cons type types ih => exact ih (h.lookup type)

def answers (cache : MemberCache) : List String → List SharedEntries
  | [] => []
  | type :: types => (cache.lookup type).1 :: answers (cache.lookup type).2 types

def AreEntries (members : List Member) (entries : List CompletionEntry) : Prop :=
  List.Forall₂ (fun member entry => entry.name = member.name ∧
      (member.kind = .property ∧ entry.kind = .property ∨
        member.kind = .method ∧ entry.kind = .method))
    members entries

structure SharesMembers (database : Database) (types : List String) : Prop where
  transparent : List.Forall₂ (fun type shared => AreEntries (database.members type) shared.entries ∧
      (database.find? type = none → shared.entries = []))
    types (answers { database } types)
  kept : ∀ (i : Nat) type, types[i]? = some type → ∃ shared,
    (answers { database } types)[i]? = some shared ∧
      (lookups { database } types).lookup type = (shared, lookups { database } types)
  apart : ∀ (i j : Nat) shared shared', (answers { database } types)[i]? = some shared →
    (answers { database } types)[j]? = some shared' → shared.serial = shared'.serial →
      types[i]? = types[j]?

theorem areEntries_ofMember (members : List Member) :
    AreEntries members (members.map .ofMember) := by
  rw [AreEntries, List.forall₂_map_right_iff, List.forall₂_same]
  rintro ⟨name, kind⟩ -
  cases kind
  · exact ⟨rfl, .inl ⟨rfl, rfl⟩⟩
  · exact ⟨rfl, .inr ⟨rfl, rfl⟩⟩

theorem lookup_of_made {type : String} {shared : SharedEntries}
    (h : cache.made.lookup type = some shared) : cache.lookup type = (shared, cache) := by
  rw [lookup, h]

theorem made_lookup (cache : MemberCache) (type : String) :
    (cache.lookup type).2.made.lookup type = some (cache.lookup type).1 := by
  cases h : cache.made.lookup type with
  | some shared =>
      rw [lookup_of_made h]
      exact h
  | none => simp [lookup, h]

theorem made_lookup_of_made {type : String} {shared : SharedEntries}
    (h : cache.made.lookup type = some shared) (other : String) :
    (cache.lookup other).2.made.lookup type = some shared := by
  cases hother : cache.made.lookup other with
  | some shared' =>
      rw [lookup_of_made hother]
      exact h
  | none =>
      have hne : type ≠ other := by
        rintro rfl
        cases h.symm.trans hother
      simp only [MemberCache.lookup, hother]
      rw [OrderedMap.lookup_cons_ite, if_neg hne]
      exact h

theorem made_lookups_of_made {type : String} {shared : SharedEntries}
    (h : cache.made.lookup type = some shared) (types : List String) :
    (cache.lookups types).made.lookup type = some shared := by
  induction types generalizing cache with
  | nil => exact h
  | cons other types ih => exact ih (made_lookup_of_made h other)

theorem Serves.answers (h : Serves cache database) (types : List String) :
    List.Forall₂ (fun type (shared : SharedEntries) =>
      shared.entries = (database.members type).map .ofMember) types (cache.answers types) := by
  induction types generalizing cache with
  | nil => exact .nil
  | cons type types ih => exact .cons (h.entries_lookup type) (ih (h.lookup type))

theorem made_answers (cache : MemberCache) {types : List String} {i : Nat} {type : String}
    (h : types[i]? = some type) :
    ∃ shared, (cache.answers types)[i]? = some shared ∧
      (cache.lookups types).made.lookup type = some shared := by
  induction types generalizing cache i with
  | nil => cases h
  | cons first types ih =>
      cases i with
      | zero =>
          obtain rfl := Option.some.inj h
          exact ⟨_, rfl, made_lookups_of_made (made_lookup cache first) types⟩
      | succ i => exact ih _ h

structure Numbered (cache : MemberCache) : Prop where
  descending : cache.made.Pairwise fun later earlier => earlier.2.serial < later.2.serial
  below : ∀ entry ∈ cache.made, entry.2.serial < cache.made.length

theorem Numbered.lookup (h : Numbered cache) (type : String) : Numbered (cache.lookup type).2 := by
  unfold MemberCache.lookup
  split
  · exact h
  · refine ⟨List.pairwise_cons.2 ⟨h.below, h.descending⟩, ?_⟩
    intro entry hentry
    rcases List.mem_cons.1 hentry with rfl | hmem
    · exact Nat.lt_succ_self _
    · exact Nat.lt_succ_of_lt (h.below entry hmem)

theorem Numbered.lookups (h : Numbered cache) (types : List String) :
    Numbered (cache.lookups types) := by
  induction types generalizing cache with
  | nil => exact h
  | cons type types ih => exact ih (h.lookup type)

theorem Numbered.inj (h : Numbered cache) {type type' : String} {shared shared' : SharedEntries}
    (hmade : cache.made.lookup type = some shared) (hmade' : cache.made.lookup type' = some shared')
    (hserial : shared.serial = shared'.serial) : type = type' := by
  have hnodup : (cache.made.map fun entry => entry.2.serial).Nodup :=
    (List.pairwise_map.2 h.descending).imp fun hlt => Nat.ne_of_gt hlt
  have hmem {type : String} {shared : SharedEntries} (hmade : cache.made.lookup type = some shared) :
      (type, shared) ∈ cache.made := by
    obtain ⟨before, after, heq, -⟩ := List.lookup_eq_some_iff.1 hmade
    rw [heq]
    simp
  exact congrArg Prod.fst (List.inj_on_of_nodup_map hnodup (hmem hmade) (hmem hmade') hserial)

theorem sharesMembers (database : Database) (types : List String) : SharesMembers database types where
  transparent := by
    refine ((serves_fresh database).answers types).imp fun type shared hentries => ?_
    rw [hentries]
    refine ⟨areEntries_ofMember _, fun hnone => ?_⟩
    rw [Database.members, hnone]
    rfl
  kept := by
    intro i type htype
    obtain ⟨shared, hanswer, hmade⟩ := made_answers { database } htype
    exact ⟨shared, hanswer, lookup_of_made hmade⟩
  apart := by
    intro i j shared shared' hi hj hserial
    have hnumbered : Numbered (lookups { database } types) :=
      .lookups ⟨.nil, fun _ hentry => absurd hentry List.not_mem_nil⟩ types
    have hmade {i : Nat} {shared : SharedEntries}
        (hi : (answers { database } types)[i]? = some shared) :
        ∃ type, types[i]? = some type ∧
          (lookups { database } types).made.lookup type = some shared := by
      obtain ⟨hlt, -⟩ := List.getElem?_eq_some_iff.1 hi
      rw [← ((serves_fresh database).answers types).length_eq] at hlt
      have htype := List.getElem?_eq_getElem hlt
      obtain ⟨shared', hanswer, hmade⟩ := made_answers { database } htype
      obtain rfl := Option.some.inj (hi.symm.trans hanswer)
      exact ⟨_, htype, hmade⟩
    obtain ⟨type, htype, hshared⟩ := hmade hi
    obtain ⟨type', htype', hshared'⟩ := hmade hj
    rw [htype, htype', hnumbered.inj hshared hshared' hserial]

end HtmlIds.MemberCache
