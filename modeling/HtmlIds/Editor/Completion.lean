import HtmlIds.Editor.MemberCache
import HtmlIds.Editor.Script
import HtmlIds.Index

namespace HtmlIds

structure CompletionItem where
  label : String
  kind : CompletionKind
  detail : Option String := none
  documentation : Option String := none
  sortText : Option String := none
deriving DecidableEq, Repr

namespace CompletionItem

def sortTextOf (label : String) : String :=
  "0" ++ label

def ofId (id : String) (site : Site) : CompletionItem where
  label := id
  kind := .variable
  detail := some site.elementType
  documentation :=
    some ("HTML element with id=\"" ++ id ++ "\"\n\nType: `" ++ site.elementType ++
      "`\n\nTag: `<" ++ site.tag ++ ">`")
  sortText := some (sortTextOf id)

def ofEntry (entry : CompletionEntry) : CompletionItem where
  label := entry.name
  kind := entry.kind
  sortText := some (sortTextOf entry.name)

end CompletionItem

def idCompletions (index : Index) : List CompletionItem :=
  index.groups.filterMap fun (id, sites) => sites.head?.map (CompletionItem.ofId id)

def memberCompletions (index : Index) (cache : MemberCache) (before : List Char) :
    Option (List CompletionItem) × MemberCache :=
  match (identifierBeforeDot? before).bind index.firstSite? with
  | none => (none, cache)
  | some site =>
    let (shared, cache) := cache.lookup site.elementType
    (some (shared.entries.map .ofEntry), cache)

def joinItems : Option (List CompletionItem) → Option (List CompletionItem) →
    Option (List CompletionItem)
  | none, none => none
  | ids, members => some (ids.getD [] ++ members.getD [])

def completions (index : Index) (cache : MemberCache) (text : String) (position : Position) :
    Option (List CompletionItem) × MemberCache :=
  match scriptLine? text position with
  | none => (none, cache)
  | some line =>
    let before := textBeforeCursor line position.character
    let ids := if isMemberAccess before then none else some (idCompletions index)
    let (members, cache) := memberCompletions index cache before
    (joinItems ids members, cache)

end HtmlIds
