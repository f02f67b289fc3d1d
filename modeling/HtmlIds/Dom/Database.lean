import HtmlIds.OrderedMap

namespace HtmlIds

inductive MemberKind where
  | property | method
deriving DecidableEq, Repr, Inhabited

structure Member where
  name : String
  kind : MemberKind
deriving DecidableEq, Repr, Inhabited

abbrev Database := OrderedMap (List Member)

namespace Database

def members (database : Database) (type : String) : List Member :=
  (database.find? type).getD []

def memberCount (database : Database) : Nat :=
  (database.entries.map fun entry => entry.2.length).foldr (· + ·) 0

end Database

end HtmlIds
