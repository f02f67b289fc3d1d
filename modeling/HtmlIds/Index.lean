import HtmlIds.Dom.ElementType
import HtmlIds.Markup.IdAttribute
import HtmlIds.OrderedMap
import HtmlIds.Uri

namespace HtmlIds

structure Site where
  tag : String
  elementType : String
  position : Position
  uri : Uri
deriving DecidableEq, Repr

/-- The ids in the order in which they first occur, and the sites of each in document order. An
index that was made of no document has no file. -/
structure Index where
  file : Option Uri := none
  order : List String := []
  sites : OrderedMap (List Site) := .empty
deriving DecidableEq, Repr, Inhabited

namespace Index

def empty : Index := {}

def addSite (index : Index) (id : String) (site : Site) : Index :=
  match index.sites.find? id with
  | some sites => { index with sites := index.sites.insert id (sites ++ [site]) }
  | none => { index with order := index.order ++ [id], sites := index.sites.insert id [site] }

def siteOf (uri : Uri) (table : LineTable) (declaration : IdDeclaration) : Site where
  tag := declaration.tag
  elementType := elementTypeOfTag declaration.tag
  position := table.positionAt declaration.span.start
  uri := uri

def build (uri : Uri) (text : String) : Index :=
  let table := LineTable.ofText text
  let found := (idDeclarations text).foldl
    (fun index declaration => index.addSite declaration.value (siteOf uri table declaration)) empty
  { found with file := some uri }

def sites? (index : Index) (id : String) : Option (List Site) :=
  index.sites.find? id

def firstSite? (index : Index) (id : String) : Option Site :=
  (index.sites? id).bind (·.head?)

def contains (index : Index) (id : String) : Bool :=
  (index.sites? id).isSome

def size (index : Index) : Nat :=
  index.order.length

def isEmpty (index : Index) : Bool :=
  index.order.isEmpty

def groups (index : Index) : List (String × List Site) :=
  index.order.filterMap fun id => (index.sites? id).map fun sites => (id, sites)

end Index

end HtmlIds
