import HtmlIds.Json.Decoder
import HtmlIds.Path
import HtmlIds.Severity

namespace HtmlIds

structure Config where
  database : Option String := none
  duplicateIds : Option RuleSeverity := none
deriving DecidableEq, Repr, Inhabited

namespace Config

def merge (config overrides : Config) : Config where
  database := overrides.database.or config.database
  duplicateIds := overrides.duplicateIds.or config.duplicateIds

def resolve (config : Config) (directory : String) : Config :=
  { config with
    database := config.database.map fun path =>
      if Path.isAbsolute path then path else Path.join directory path }

def severity (config : Config) : RuleSeverity :=
  config.duplicateIds.getD default

def encode (config : Config) : Json :=
  Json.ofMembers (Json.present
    [("completionDatabase", config.database.map .string),
     ("diagnostics", some (.object (Json.present
       [("duplicateIds", config.duplicateIds.map fun rule => .string rule.display)])))])

/-- Which values a format takes for a record besides an object: an array of the fields in their
order, or null for a record without fields. -/
structure RecordForms where
  arrays : Bool
  nulls : Bool
deriving DecidableEq, Repr

open Reading

def asSeverity : Decoder UnknownSeverity RuleSeverity := fun value =>
  match asString value with
  | .error refusal => .error refusal
  | .ok text => (RuleSeverity.parse text).mapError .rule

def asDiagnostics (forms : RecordForms) : Decoder UnknownSeverity (Option RuleSeverity)
  | .object members stop =>
    let take found key value :=
      if key = "duplicateIds" then once found (asOption asSeverity) value
      else (skip value).map fun _ => found
    (foldMembers take none members stop).map Option.join
  | .array items stop =>
    if forms.arrays then
      match nextItem (asOption asSeverity) (.ok none) stop items with
      | .error refusal => .error refusal
      | .ok (rule, rest) => atLast rule rest stop
    else .error .shape
  | .null => if forms.nulls then .ok none else .error .shape
  | value => value.refuse

structure Fields where
  database : Option (Option String) := none
  diagnostics : Option (Option RuleSeverity) := none
deriving DecidableEq, Repr

def Fields.config (fields : Fields) : Config where
  database := fields.database.join
  duplicateIds := fields.diagnostics.join

def takeField (forms : RecordForms) (fields : Fields) (key : String) (value : Reading) :
    Except (Refusal UnknownSeverity) Fields :=
  if key = "completionDatabase" then
    (once fields.database (asOption asString) value).map ({ fields with database := · })
  else if key = "diagnostics" then
    (once fields.diagnostics (asDiagnostics forms) value).map ({ fields with diagnostics := · })
  else (skip value).map fun _ => fields

def decode (forms : RecordForms) : Decoder UnknownSeverity Config
  | .object members stop => (foldMembers (takeField forms) {} members stop).map Fields.config
  | .array items stop =>
    if forms.arrays then
      match nextItem (asOption asString) (.ok none) stop items with
      | .error refusal => .error refusal
      | .ok (database, rest) =>
        match nextItem (asDiagnostics forms) (.ok none) stop rest with
        | .error refusal => .error refusal
        | .ok (duplicateIds, rest) => atLast { database, duplicateIds } rest stop
    else .error .shape
  | .null => if forms.nulls then .ok {} else .error .shape
  | value => value.refuse

end Config

end HtmlIds
