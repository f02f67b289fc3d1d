import HtmlIds.Config.Basic
import HtmlIds.FileSystem
import HtmlIds.Text.Blank
import HtmlIds.Yaml.Reading

namespace HtmlIds

inductive ConfigFormat where
  | yaml | json
deriving DecidableEq, Repr

inductive ConfigError where
  | unreadable : FileError → ConfigError
  | unparsable : String → ConfigFormat → Refusal UnknownSeverity → ConfigError
  | emptyDatabase : String → ConfigError
  | unsupportedFormat : String → ConfigError
  | invalidOptions : Refusal UnknownSeverity → ConfigError
deriving DecidableEq, Repr

namespace ConfigFormat

def name : ConfigFormat → String
  | .yaml => "YAML"
  | .json => "JSON"

def forms : ConfigFormat → Config.RecordForms
  | .yaml => { arrays := false, nulls := true }
  | .json => { arrays := true, nulls := false }

def reading : ConfigFormat → List Char → Reading.Whole
  | .yaml => Yaml.ofText
  | .json => Reading.ofText

def ofPath (path : String) : List ConfigFormat :=
  match Path.extension? path with
  | some extension =>
    if extension = "yml" || extension = "yaml" then [.yaml]
    else if extension = "json" then [.json]
    else []
  | none => if Path.fileName? path = some ".htmlidrc" then [.yaml, .json] else []

def decode (format : ConfigFormat) (text : String) : Except (Refusal UnknownSeverity) Config :=
  if format = .yaml && trim text.toList = [] then .ok {}
  else (format.reading text.toList).decode (Config.decode format.forms)

end ConfigFormat

namespace ConfigError

def message : ConfigError → String
  | .unreadable problem => "Failed to read config file: " ++ problem.message
  | .unparsable path format refusal =>
    "Invalid config in " ++ path ++ ": " ++ format.name ++ " parse error: " ++
      refusal.message UnknownSeverity.message
  | .emptyDatabase path => "Invalid config in " ++ path ++ ": completionDatabase must not be empty"
  | .unsupportedFormat path => "Unsupported config file format: " ++ path
  | .invalidOptions refusal =>
    "Invalid initialization options: " ++ refusal.message UnknownSeverity.message

def chain : ConfigError → List String
  | .unreadable problem => [message (.unreadable problem), problem.message]
  | problem => [problem.message]

end ConfigError

namespace Config

def decodeFirst (path text : String) : List ConfigFormat → Except ConfigError Config
  | [] => .error (.unsupportedFormat path)
  | format :: others =>
    match format.decode text, others with
    | .ok config, _ => .ok config
    | .error refusal, [] => .error (.unparsable path format refusal)
    | .error _, next :: rest => decodeFirst path text (next :: rest)

def ofText (path text : String) : Except ConfigError Config :=
  match decodeFirst path text (ConfigFormat.ofPath path) with
  | .error problem => .error problem
  | .ok config => if config.database = some "" then .error (.emptyDatabase path) else .ok config

def ofOptions (options : Json) : Except ConfigError Config :=
  if options.isNull then .ok {}
  else (decode ConfigFormat.json.forms (.ofJson options)).mapError .invalidOptions

def load (files : FileSystem) (path : String) : Except ConfigError Config :=
  match files.readText path with
  | .error problem => .error (.unreadable problem)
  | .ok text =>
    (ofText path text).map fun config =>
      match Path.parent? path with
      | none => config
      | some directory => config.resolve directory

def fileNames : List String :=
  [".htmlidrc.json", ".htmlidrc.yml", ".htmlidrc.yaml", ".htmlidrc", "htmlid.config.json",
   "htmlid.config.yml", "htmlid.config.yaml"]

def find? (files : FileSystem) (start : String) : Option String :=
  ((Path.ancestors start).flatMap fun directory => fileNames.map (Path.join directory)).find?
    files.isFile

end Config

end HtmlIds
