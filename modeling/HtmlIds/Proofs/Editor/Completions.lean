import HtmlIds.Editor.Completion
import HtmlIds.Proofs.Editor.Cursor
import HtmlIds.Proofs.Editor.MemberCache
import HtmlIds.Proofs.Index
import HtmlIds.Proofs.Markup.ScriptRegion
import HtmlIds.Proofs.Text.LineTable
import Mathlib.Data.List.Forall2

namespace HtmlIds

def OffersIds (source : String) (items : List CompletionItem) : Prop :=
  List.Forall₂ (fun id item => item.label = id ∧ item.kind = .variable ∧
      ∃ first, (idDeclarations source).find? (·.value = id) = some first ∧
        item.detail = some (elementTypeOfTag first.tag))
    (declaredIds source).eraseDups items

def OffersMembers (members : List Member) (items : List CompletionItem) : Prop :=
  List.Forall₂ (fun member item => item.label = member.name ∧
      (member.kind = .property ∧ item.kind = .property ∨
        member.kind = .method ∧ item.kind = .method))
    members items

structure Offers (source : String) (database : Database) (before : List Char)
    (items : Option (List CompletionItem)) : Prop where
  ids : isMemberAccess before = false → ∃ list, items = some list ∧ OffersIds source list
  members : ∀ base first, identifierBeforeDot? before = some base →
    (idDeclarations source).find? (·.value = base) = some first →
      ∃ list, items = some list ∧ OffersMembers (database.members (elementTypeOfTag first.tag)) list
  nothing : isMemberAccess before = true →
    (∀ base, identifierBeforeDot? before = some base → base ∉ declaredIds source) → items = none

theorem firstSite?_eq (uri : Uri) (source id : String) :
    (Index.build uri source).firstSite? id =
      ((idDeclarations source).find? (·.value = id)).map
        (Index.siteOf uri (.ofText source)) := by
  rw [Index.firstSite?_build]
  exact congrArg (Option.map _) List.head?_filter

theorem forall₂_filterMap {α β : Type} {rel : α → β → Prop} {f : α → Option β} {list : List α}
    (h : ∀ a ∈ list, ∃ b, f a = some b ∧ rel a b) : List.Forall₂ rel list (list.filterMap f) := by
  induction list with
  | nil => exact .nil
  | cons a rest ih =>
      obtain ⟨b, hb, hrel⟩ := h a List.mem_cons_self
      rw [List.filterMap_cons_some hb]
      exact .cons hrel (ih fun a' ha' => h a' (List.mem_cons_of_mem a ha'))

theorem offersIds_idCompletions (uri : Uri) (source : String) :
    OffersIds source (idCompletions (.build uri source)) := by
  rw [OffersIds, idCompletions, Index.groups_build, List.filterMap_map]
  refine forall₂_filterMap fun id hid => ?_
  -- an id is declared, so it has a first declaration
  obtain ⟨d, hd, hvalue⟩ := List.mem_map.1 (List.mem_eraseDups.1 hid)
  obtain ⟨first, hfirst⟩ : ∃ first, (idDeclarations source).find? (·.value = id) = some first := by
    rw [← Option.isSome_iff_exists, List.find?_isSome]
    exact ⟨d, hd, decide_eq_true hvalue⟩
  have hhead : (declarationsOf source id).head? = some first := List.head?_filter.trans hfirst
  refine ⟨.ofId id (Index.siteOf uri (.ofText source) first), ?_, rfl, rfl, first, hfirst, rfl⟩
  simp [hhead]

theorem offersMembers_ofEntry (members : List Member) :
    OffersMembers members (members.map fun member => .ofEntry (.ofMember member)) := by
  rw [OffersMembers, List.forall₂_map_right_iff, List.forall₂_same]
  rintro ⟨name, kind⟩ -
  cases kind
  · exact ⟨rfl, .inl ⟨rfl, rfl⟩⟩
  · exact ⟨rfl, .inr ⟨rfl, rfl⟩⟩

variable {cache : MemberCache} {database : Database}

theorem memberCompletions_eq (h : cache.Serves database) (uri : Uri) (source : String)
    (before : List Char) :
    (memberCompletions (.build uri source) cache before).1 =
      (identifierBeforeDot? before).bind fun base =>
        ((idDeclarations source).find? (·.value = base)).map fun first =>
          (database.members (elementTypeOfTag first.tag)).map fun member =>
            .ofEntry (.ofMember member) := by
  unfold memberCompletions
  cases hbase : identifierBeforeDot? before with
  | none => rfl
  | some base =>
      simp only [Option.bind_some, firstSite?_eq]
      cases (idDeclarations source).find? (·.value = base) with
      | none => rfl
      | some first =>
          simp only [Option.map_some, h.entries_lookup, List.map_map]
          rfl

theorem offers_joinItems (h : cache.Serves database) (uri : Uri) (source : String)
    (before : List Char) :
    Offers source database before
      (joinItems (if isMemberAccess before then none else some (idCompletions (.build uri source)))
        (memberCompletions (.build uri source) cache before).1) := by
  -- a base before a dot excludes the ids, so one of the two lists at most is there
  rw [memberCompletions_eq h]
  refine ⟨fun hnot => ?_, fun base first hbase hfirst => ?_, fun haccess hunknown => ?_⟩
  · have hbase : identifierBeforeDot? before = none := by
      cases hbase : identifierBeforeDot? before with
      | none => rfl
      | some base => cases hnot.symm.trans (isMemberAccess_of_identifierBeforeDot? hbase)
    rw [hnot, hbase]
    refine ⟨idCompletions (.build uri source), ?_, offersIds_idCompletions uri source⟩
    simp [joinItems]
  · rw [isMemberAccess_of_identifierBeforeDot? hbase, hbase]
    refine ⟨_, ?_, offersMembers_ofEntry (database.members (elementTypeOfTag first.tag))⟩
    simp [joinItems, hfirst]
  · rw [haccess]
    cases hbase : identifierBeforeDot? before with
    | none => rfl
    | some base =>
        have hnone : (idDeclarations source).find? (·.value = base) = none := by
          refine List.find?_eq_none.2 fun d hd hvalue => hunknown base hbase ?_
          exact List.mem_map.2 ⟨d, hd, of_decide_eq_true hvalue⟩
        simp [joinItems, hnone]

theorem scriptLine?_eq_none {text : String} {position : Position}
    (h : inScriptRegion text ((LineTable.ofText text).offsetAt position) = false) :
    scriptLine? text position = none := by
  simp [scriptLine?, h]

theorem exists_scriptLine? {text : String} {position : Position}
    (h : inScriptRegion text ((LineTable.ofText text).offsetAt position) = true) :
    ∃ line, (LineTable.ofText text).lineText? position.line = some line ∧
      scriptLine? text position = some line := by
  obtain ⟨line, hline⟩ := LineTable.exists_lineText? (lt_of_inScriptRegion h)
  exact ⟨line, hline, by simp [scriptLine?, h, hline]⟩

theorem completions_routed (uri : Uri) (source text : String) (database : Database)
    (types : List String) (position : Position) :
    let table := LineTable.ofText text
    let cache := MemberCache.lookups { database } types
    let items := (completions (.build uri source) cache text position).1
    (inScriptRegion text (table.offsetAt position) = false → items = none) ∧
    (inScriptRegion text (table.offsetAt position) = true →
      ∃ line, table.lineText? position.line = some line ∧
        Offers source database (textBeforeCursor line position.character) items) ∧
    ∀ before base, identifierBeforeDot? before = some base → isMemberAccess before = true := by
  intro table cache items
  have hserves : cache.Serves database := (MemberCache.serves_fresh database).lookups types
  refine ⟨fun hout => ?_, fun hin => ?_, fun _ _ => isMemberAccess_of_identifierBeforeDot?⟩
  · simp [items, completions, scriptLine?_eq_none hout]
  · obtain ⟨line, hline, hscript⟩ := exists_scriptLine? hin
    refine ⟨line, hline, ?_⟩
    have hitems := offers_joinItems hserves uri source (textBeforeCursor line position.character)
    simpa only [items, completions, hscript] using hitems

end HtmlIds
