import HtmlIds.Dom.Database

namespace HtmlIds

inductive CompletionKind where
  | variable | property | method
deriving DecidableEq, Repr

structure CompletionEntry where
  name : String
  kind : CompletionKind
deriving DecidableEq, Repr

namespace CompletionEntry

def ofMember (member : Member) : CompletionEntry where
  name := member.name
  kind := match member.kind with
    | .property => .property
    | .method => .method

end CompletionEntry

/-- A list of entries, told from other lists by the number of lists that were made before it. -/
structure SharedEntries where
  entries : List CompletionEntry
  serial : Nat
deriving DecidableEq, Repr

/-- The lists made so far, the last one first. Types without members have an empty list. -/
structure MemberCache where
  database : Database
  made : List (String × SharedEntries) := []
deriving DecidableEq, Repr

namespace MemberCache

def lookup (cache : MemberCache) (type : String) : SharedEntries × MemberCache :=
  match cache.made.lookup type with
  | some shared => (shared, cache)
  | none =>
    let shared := ⟨(cache.database.members type).map .ofMember, cache.made.length⟩
    (shared, { cache with made := (type, shared) :: cache.made })

end MemberCache

end HtmlIds
