import HtmlIds.Dom.Database
import HtmlIds.FileSystem
import HtmlIds.Json.Decoder

namespace HtmlIds

structure UnknownFlag where
  member : String
  flag : Int
deriving DecidableEq, Repr

def UnknownFlag.message (problem : UnknownFlag) : String :=
  "member '" ++ problem.member ++ "' has method flag " ++ toString problem.flag ++
    ", expected 0 or 1"

inductive ArtifactError where
  | unreadable : String → FileError → ArtifactError
  | refused : Refusal UnknownFlag → ArtifactError
  | unsupportedVersion : Option Int → ArtifactError
deriving DecidableEq, Repr

def Artifact.formatVersion : Int := 1

namespace ArtifactError

def versionText : Option Int → String
  | none => "None"
  | some version => "Some(" ++ toString version ++ ")"

def message : ArtifactError → String
  | .unreadable path problem =>
    "Failed to read completion database " ++ path ++ ": " ++ problem.message
  | .refused refusal =>
    "Failed to parse completion database: " ++ refusal.message UnknownFlag.message
  | .unsupportedVersion found =>
    "Unsupported completion database version " ++ versionText found ++ " (expected " ++
      toString Artifact.formatVersion ++ ")"

def chain : ArtifactError → List String
  | .unreadable path problem => [message (.unreadable path problem), problem.message]
  | .refused refusal => [message (.refused refusal), refusal.message UnknownFlag.message]
  | .unsupportedVersion found => [message (.unsupportedVersion found)]

end ArtifactError

namespace Artifact

open Reading

def flagOf : MemberKind → Int
  | .property => 0
  | .method => 1

def encodeMember (member : Member) : Json :=
  .array [.string member.name, .int (flagOf member.kind)]

def encodeTypes (database : Database) : Json :=
  .object (database.entries.map fun entry => (entry.1, .array (entry.2.map encodeMember)))

def encode (database : Database) : Json :=
  .object [("version", .int formatVersion), ("types", encodeTypes database)]

def write (database : Database) : String :=
  (encode database).compact

def asVersion : Decoder UnknownFlag Int :=
  asInteger 0 0x100000000

def asMember : Decoder UnknownFlag Member := fun value =>
  match asPair asString (asInteger 0 256) value with
  | .error refusal => .error refusal
  | .ok (name, flag) =>
    if flag = 0 then .ok ⟨name, .property⟩
    else if flag = 1 then .ok ⟨name, .method⟩
    else .error (.rule ⟨name, flag⟩)

def asTypes : Decoder UnknownFlag Database
  | .object members stop =>
    foldMembers (fun database type value => (asList asMember value).map (database.insert type))
      .empty members stop
  | value => value.refuse

def asFoundVersion : Decoder UnknownFlag (Option Int)
  | .object members stop =>
    let take found key value :=
      if key = "version" then once found (asOption asVersion) value
      else (skip value).map fun _ => found
    (foldMembers take none members stop).map Option.join
  | .array items stop =>
    match nextItem (asOption asVersion) (.error .shape) stop items with
    | .error refusal => .error refusal
    | .ok (version, rest) => atLast version rest stop
  | value => value.refuse

structure Fields where
  version : Option Int := none
  types : Option Database := none

def takeField (fields : Fields) (key : String) (value : Reading) :
    Except (Refusal UnknownFlag) Fields :=
  if key = "version" then (once fields.version asVersion value).map ({ fields with version := · })
  else if key = "types" then (once fields.types asTypes value).map ({ fields with types := · })
  else (skip value).map fun _ => fields

def asBody : Decoder UnknownFlag Database
  | .object members stop =>
    match foldMembers takeField {} members stop with
    | .error refusal => .error refusal
    | .ok fields =>
      match fields.version, fields.types with
      | some _, some types => .ok types
      | _, _ => .error .shape
  | .array items stop =>
    match nextItem asVersion (.error .shape) stop items with
    | .error refusal => .error refusal
    | .ok (_, rest) =>
      match nextItem asTypes (.error .shape) stop rest with
      | .error refusal => .error refusal
      | .ok (types, rest) => atLast types rest stop
  | value => value.refuse

def read (text : String) : Except ArtifactError Database :=
  let whole := Reading.ofText text.toList
  match whole.decode asFoundVersion with
  | .error refusal => .error (.refused refusal)
  | .ok found =>
    if found = some formatVersion then (whole.decode asBody).mapError .refused
    else .error (.unsupportedVersion found)

def load (files : FileSystem) (path : String) : Except ArtifactError Database :=
  match files.readText path with
  | .error problem => .error (.unreadable path problem)
  | .ok text => read text

end Artifact

end HtmlIds
