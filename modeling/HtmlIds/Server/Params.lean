import HtmlIds.Json.Basic
import HtmlIds.Session.Basic

namespace HtmlIds

namespace Params

def fields? (names : List String) : Json → Option (List (Option Json))
  | .object members => some (names.map fun name => members.lookup name)
  | .array items => if items.length = names.length then some (items.map some) else none
  | _ => none

def optional {α : Type} (read : Json → Option α) : Option Json → Option (Option α)
  | none => some none
  | some .null => some none
  | some value => (read value).map some

def list {α : Type} (read : Json → Option α) (value : Json) : Option (List α) :=
  value.items?.bind fun items => items.mapM read

def integer (low high : Int) (value : Json) : Option Int :=
  value.int?.filter fun n => low ≤ n && n < high

def signed : Json → Option Int :=
  integer (-0x80000000) 0x80000000

def unsigned (value : Json) : Option UInt32 :=
  (integer 0 0x100000000 value).map fun n => n.toNat.toUInt32

def uri (value : Json) : Option Uri :=
  value.text?.filter Uri.isReference

def position (value : Json) : Option Position :=
  match fields? ["line", "character"] value with
  | some [some line, some character] =>
    match unsigned line, unsigned character with
    | some line, some character => some ⟨line, character⟩
    | _, _ => none
  | _ => none

def range (value : Json) : Option Range :=
  match fields? ["start", "end"] value with
  | some [some start, some stop] =>
    match position start, position stop with
    | some start, some stop => some ⟨start, stop⟩
    | _, _ => none
  | _ => none

def soleField {α : Type} (name : String) (read : Json → Option α) (value : Json) : Option α :=
  match fields? [name] value with
  | some [some field] => read field
  | _ => none

def document : Json → Option Uri :=
  soleField "uri" uri

def aboutDocument : Json → Option Uri :=
  soleField "textDocument" document

def opened : Json → Option Session.Event :=
  soleField "textDocument" fun value =>
    match fields? ["uri", "languageId", "version", "text"] value with
    | some [some id, some language, some version, some text] =>
      match uri id, language.text?, signed version, text.text? with
      | some id, some language, some version, some text => some (.opened id language version text)
      | _, _, _, _ => none
    | _ => none

def change (value : Json) : Option String :=
  match fields? ["range", "rangeLength", "text"] value with
  | some [area, length, some text] =>
    match optional range area, optional unsigned length with
    | some _, some _ => text.text?
    | _, _ => none
  | _ => none

def versioned (value : Json) : Option (Uri × Int) :=
  match fields? ["uri", "version"] value with
  | some [some id, some version] =>
    match uri id, signed version with
    | some id, some version => some (id, version)
    | _, _ => none
  | _ => none

def changes (value : Json) : Option ((Uri × Int) × List String) :=
  match fields? ["textDocument", "contentChanges"] value with
  | some [some id, some texts] =>
    match versioned id, list change texts with
    | some id, some texts => some (id, texts)
    | _, _ => none
  | _ => none

def token : Json → Option Unit
  | .string _ => some ()
  | value => (signed value).map fun _ => ()

def completionContext (value : Json) : Option Unit :=
  match fields? ["triggerKind", "triggerCharacter"] value with
  | some [some kind, character] =>
    match signed kind, optional Json.text? character with
    | some _, some _ => some ()
    | _, _ => none
  | _ => none

/-- The parameters of a query: a document, a position in it, and members that have to be well formed
when they are there. They cannot be written as an array. -/
def query (extra : List (String × (Json → Option Unit))) : Json → Option (Uri × Position)
  | .object members =>
    match (members.lookup "textDocument").bind document,
      (members.lookup "position").bind position,
      extra.mapM fun (name, read) => optional read (members.lookup name) with
    | some id, some place, some _ => some (id, place)
    | _, _, _ => none
  | _ => none

def completion : Json → Option (Uri × Position) :=
  query [("workDoneToken", token), ("partialResultToken", token), ("context", completionContext)]

def hover : Json → Option (Uri × Position) :=
  query [("workDoneToken", token)]

def definition : Json → Option (Uri × Position) :=
  query [("workDoneToken", token), ("partialResultToken", token)]

structure Startup where
  root : Option Uri
  folders : Option (List Uri)
  options : Option Json
deriving Repr, Inhabited

def folder (value : Json) : Option Uri :=
  match fields? ["uri", "name"] value with
  | some [some id, some name] => if name.text?.isSome then uri id else none
  | _ => none

def clientInfo (value : Json) : Option Unit :=
  match fields? ["name", "version"] value with
  | some [some name, version] =>
    match name.text?, optional Json.text? version with
    | some _, some _ => some ()
    | _, _ => none
  | _ => none

def trace (value : Json) : Option Unit :=
  match value.text? with
  | some text => if ["off", "messages", "verbose"].contains text then some () else none
  | none => none

def anyRecord : Json → Option Unit
  | .object _ | .array _ => some ()
  | _ => none

def capabilities (value : Json) : Option Unit :=
  let groups := ["workspace", "textDocument", "notebookDocument", "window", "general"]
  match fields? (groups ++ ["experimental"]) value with
  | some found => ((found.take groups.length).mapM (optional anyRecord)).map fun _ => ()
  | none => none

def discard {α : Type} (read : Json → Option α) (value : Json) : Option Unit :=
  (read value).map fun _ => ()

def startup : Json → Option Startup
  | .object members =>
    let extra : List (String × (Json → Option Unit)) :=
      [("processId", discard unsigned), ("rootPath", discard Json.text?), ("trace", trace),
       ("clientInfo", clientInfo), ("locale", discard Json.text?), ("workDoneToken", token)]
    match (members.lookup "capabilities").bind capabilities,
      extra.mapM fun (name, read) => optional read (members.lookup name),
      optional uri (members.lookup "rootUri"),
      optional (list folder) (members.lookup "workspaceFolders") with
    | some _, some _, some root, some folders =>
      some ⟨root, folders, (members.lookup "initializationOptions").filter (!·.isNull)⟩
    | _, _, _, _ => none
  | _ => none

end Params

end HtmlIds
