import HtmlIds.Dom.Database
import HtmlIds.Generator.Frame

namespace HtmlIds

inductive ServiceError where
  | notStarted : String → ServiceError
  | frame : FrameError → ServiceError
  | exited : String → ServiceError
  | refused : String → String → ServiceError
deriving DecidableEq, Repr

namespace ServiceError

def chain : ServiceError → List String
  | .notStarted program =>
    ["Failed to spawn " ++ program, "No such file or directory (os error 2)"]
  | .frame problem => problem.chain
  | .exited command => ["tsserver exited while waiting for " ++ command]
  | .refused command reason => [command ++ " failed: " ++ reason]

def display (problem : ServiceError) : String :=
  ": ".intercalate problem.chain

def isPanic : ServiceError → Bool
  | .frame problem => problem.isPanic
  | _ => false

end ServiceError

def panics {α : Type} : Except ServiceError α → Bool
  | .ok _ => false
  | .error problem => problem.isPanic

/-- A conversation with the service: what is still to be read of its stream, the number of the last
request, and the requests sent, last first. -/
structure Service where
  stream : List UInt8
  sequence : Nat := 0
  sent : List String := []
deriving Repr, Inhabited

namespace Service

def encodeRequest (sequence : Nat) (command : String) (arguments : Json) : String :=
  (Json.ofMembers
    [("seq", .nat sequence), ("type", .string "request"), ("command", .string command),
     ("arguments", arguments)]).compact ++ "\n"

def send (service : Service) (command : String) (arguments : Json) : Service :=
  let sequence := service.sequence + 1
  { service with
    sequence
    sent := encodeRequest sequence command arguments :: service.sent }

def answers (message : Json) (sequence : Nat) : Bool :=
  (message.member "type").text? == some "response" &&
    (message.member "request_seq").int? == some (sequence : Int)

def isTrue : Json → Bool
  | .bool b => b
  | _ => false

def bodyOf (command : String) (message : Json) : Except ServiceError Json :=
  if isTrue (message.member "success") then .ok (message.member "body")
  else .error (.refused command ((message.member "message").text?.getD "unknown error"))

/-- Reads up to and including the answer to a request; other messages are passed over. No stream has
more messages than bytes. -/
def await (command : String) (sequence : Nat) :
    Nat → List UInt8 → Except ServiceError Json × List UInt8
  | 0, stream => (.error (.exited command), stream)
  | fuel + 1, stream =>
    match Frame.read stream with
    | (.error problem, rest) => (.error (.frame problem), rest)
    | (.ok none, rest) => (.error (.exited command), rest)
    | (.ok (some message), rest) =>
      if answers message sequence then (bodyOf command message, rest)
      else await command sequence fuel rest

def request (service : Service) (command : String) (arguments : Json) :
    Except ServiceError Json × Service :=
  let service := service.send command arguments
  let (result, stream) :=
    await command service.sequence (service.stream.length + 1) service.stream
  (result, { service with stream })

def startOptions : Json :=
  Json.ofMembers
    [("options", Json.ofMembers
       [("target", .string "ESNext"), ("module", .string "ESNext"),
        ("lib", .array [.string "dom", .string "es2020"]), ("allowJs", .bool false)])]

def start (stream : List UInt8) : Except ServiceError Unit × Service :=
  let (result, service) :=
    ({ stream : Service }).request "compilerOptionsForInferredProjects" startOptions
  (result.map fun _ => (), service)

def stop (service : Service) : Service :=
  service.send "exit" .null

def fileOf (type : String) : String :=
  "/__html_id__/" ++ type ++ ".ts"

def textOf (type : String) : String :=
  "declare var __el: " ++ type ++ "; __el."

def memberOf? (entry : Json) : Option Member :=
  (entry.member "name").text?.map fun name =>
    let kind := (entry.member "kind").text?.getD ""
    ⟨name, if kind = "method" || kind = "function" then .method else .property⟩

def membersOf (body : Json) : List Member :=
  ((body.member "entries").items?.getD []).filterMap memberOf?

def members (service : Service) (type : String) : Except ServiceError (List Member) × Service :=
  let file := Json.string (fileOf type)
  let text := textOf type
  let service := service.send "open" (Json.ofMembers
    [("file", file), ("fileContent", .string text), ("scriptKindName", .string "TS")])
  let (body, service) := service.request "completionInfo" (Json.ofMembers
    [("file", file), ("line", .nat 1), ("offset", .nat (text.utf8ByteSize + 1)),
     ("includeExternalModuleExports", .bool false), ("includeInsertTextCompletions", .bool true)])
  let service :=
    if panics body then service else service.send "close" (Json.ofMembers [("file", file)])
  (body.map membersOf, service)

end Service

end HtmlIds
