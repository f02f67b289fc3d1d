import HtmlIds.Dom.Artifact
import HtmlIds.Dom.ElementType
import HtmlIds.Generator.Service

namespace HtmlIds

abbrev MemberService (σ : Type) := σ → String → Except String (List Member) × σ

structure Generation (σ : Type) where
  service : σ
  database : Database := .empty
  output : String := ""
  errors : String := ""

namespace Generation

variable {σ : Type}

def warning (text : String) : String :=
  "warning: " ++ text ++ "\n"

def complaint (type : String) : Except String (List Member) → String
  | .ok [] => warning ("no completions for " ++ type)
  | .ok (_ :: _) => ""
  | .error problem => warning (type ++ ": " ++ problem)

def progress (type : String) : String :=
  "  Processing " ++ type ++ "...\n"

def step (ask : MemberService σ) (generation : Generation σ) (type : String) : Generation σ :=
  let (answer, service) := ask generation.service type
  { service
    database := generation.database.insert type (answer.toOption.getD [])
    output := generation.output ++ progress type
    errors := generation.errors ++ complaint type answer }

def run (ask : MemberService σ) (service : σ) (types : List String) : Generation σ :=
  types.foldl (step ask) { service }

end Generation

namespace Generator

def artifactPath : String := "crates/dom/data/dom-completions.json"

def kilobytes (size : Nat) : String :=
  let doubled := 2 * 10 * size
  let unit := 2 * 1024
  let tenths := doubled / unit
  let rest := doubled % unit
  let tenths :=
    if 1024 < rest || (rest = 1024 && tenths % 2 = 1) then tenths + 1 else tenths
  toString (tenths / 10) ++ "." ++ toString (tenths % 10)

/-- The service, or what is answered for every type when it cannot be used, or what the service has
been sent when the program ended. -/
inductive Source where
  | running : Service → Source
  | unavailable : String → Source
  | panicked : Service → Source

namespace Source

def isPanicked : Source → Bool
  | .panicked _ => true
  | _ => false

def ask : MemberService Source
  | .running service, type =>
    let (answer, service) := service.members type
    (answer.mapError ServiceError.display,
      if panics answer then .panicked service else .running service)
  | .unavailable reason, _ => (.error reason, .unavailable reason)
  | .panicked service, _ => (.error "", .panicked service)

def requests : Source → List String
  | .running service => service.stop.sent.reverse
  | .unavailable _ => []
  | .panicked service => service.stop.sent.reverse

end Source

structure Outcome where
  artifact : Except String String
  output : String
  errors : String
  requests : List String
  panicked : Bool := false

/-- A program that can be started has a stream; otherwise there is only its name. -/
abbrev Program := Except String (List UInt8)

def start : Program → Source × String × List String
  | .error program =>
    let reason := (ServiceError.notStarted program).display
    (.unavailable reason, Generation.warning reason, [])
  | .ok stream =>
    match Service.start stream with
    | (.ok (), service) => (.running service, "", [])
    | (.error problem, service) =>
      if problem.isPanic then (.panicked service, "", [])
      else
        (.unavailable problem.display, Generation.warning problem.display,
          service.stop.sent.reverse)

def advance (generation : Generation Source) (type : String) : Generation Source :=
  if generation.service.isPanicked then generation
  else
    let (_, next) := Source.ask generation.service type
    if next.isPanicked then
      { generation with service := next, output := generation.output ++ Generation.progress type }
    else Generation.step Source.ask generation type

def summary (path : String) (database : Database) : String :=
  "\nGenerated " ++ path ++ "\nSize: " ++ kilobytes (Artifact.write database).utf8ByteSize ++
    " KB\nTypes: " ++ toString database.size ++ "\nTotal completions: " ++
    toString database.memberCount ++ "\n"

def run (files : FileSystem) (root : String) (program : Program) : Outcome :=
  let (source, complaint, requests) := start program
  let generation := elementTypes.foldl advance { service := source }
  let requests := requests ++ generation.service.requests
  let output := "Generating DOM completions...\n" ++ generation.output
  let errors := complaint ++ generation.errors
  let path := Path.join root artifactPath
  if generation.service.isPanicked then
    { artifact := .error "capacity overflow", output, errors, requests, panicked := true }
  else
    match files.writeProblem? path with
    | some problem =>
      let reason := "Failed to write " ++ path ++ ": " ++ problem.message
      { artifact := .error reason, output, errors, requests }
    | none =>
      { artifact := .ok (Artifact.write generation.database)
        output := output ++ summary path generation.database, errors, requests }

end Generator

end HtmlIds
