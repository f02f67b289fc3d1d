import HtmlIds.Config.Format
import HtmlIds.Dom.Artifact
import HtmlIds.Dom.Bundled
import HtmlIds.Server.Encoding
import HtmlIds.Server.Params

namespace HtmlIds

namespace Server

inductive RequestId where
  | number : Int → RequestId
  | text : String → RequestId
deriving DecidableEq, Repr

inductive Message where
  | request : RequestId → String → Json → Message
  | notification : String → Json → Message
  | response : RequestId → Message
deriving Repr

inductive Failure where
  | notInitialized : Failure
  | unknownMethod : String → Failure
  | invalidParams : Failure
  | database : String → ArtifactError → Failure
deriving DecidableEq, Repr

namespace Failure

def code : Failure → Int
  | .notInitialized => -32002
  | .unknownMethod _ => -32601
  | .invalidParams => -32602
  | .database .. => -32603

def databaseMessage (path : String) : String :=
  "Failed to load completion database " ++ path

def message (failure : Failure) (words : String := "") : String :=
  match failure with
  | .notInitialized => "expected initialize request"
  | .unknownMethod method => "Unhandled method: " ++ method
  | .invalidParams => words
  | .database path problem => ": ".intercalate (databaseMessage path :: problem.chain)

end Failure

inductive Sent where
  | result : RequestId → Json → Sent
  | failure : RequestId → Failure → Sent
  | notification : String → Json → Sent
deriving Repr

inductive Disorder where
  | disconnected | notARequest | notInitialized | notExit | noExit
deriving DecidableEq, Repr

def Disorder.message : Disorder → String
  | .disconnected => "disconnected channel"
  | .notARequest => "expected initialize request"
  | .notInitialized => "expected initialized notification"
  | .notExit => "unexpected message during shutdown"
  | .noExit => "channel disconnected waiting for exit notification"

inductive Ending where
  | finished : Ending
  | disorder : Disorder → Ending
  | invalidStartup : Ending
  | database : String → Ending
deriving DecidableEq, Repr

def Ending.message? : Ending → Option String
  | .finished => none
  | .disorder problem => some problem.message
  | .invalidStartup => some "Invalid initialize params"
  | .database path => some (Failure.databaseMessage path)

inductive Stage where
  | waiting : Stage
  | greeted : Session → Stage
  | running : Session → Stage
  | leaving : Stage
  | ended : Ending → Stage
deriving Repr

structure Setting where
  files : FileSystem
  configPath : Option String := none
deriving Inhabited

def workspaceRoot? (startup : Params.Startup) : Option String :=
  let folder := startup.folders.bind (·.head?)
  (folder.or startup.root).bind Uri.localPath?

def fileConfig (setting : Setting) (startup : Params.Startup) : Config :=
  let path := match setting.configPath with
    | some path => some path
    | none => (workspaceRoot? startup).bind (Config.find? setting.files)
  match path with
  | none => {}
  | some path => (Config.load setting.files path).toOption.getD {}

def clientConfig (startup : Params.Startup) : Config :=
  match startup.options with
  | none => {}
  | some options => (Config.ofOptions options).toOption.getD {}

def startConfig (setting : Setting) (startup : Params.Startup) : Config :=
  (fileConfig setting startup).merge (clientConfig startup)

def loadDatabase (files : FileSystem) : Option String → Except ArtifactError Database
  | none => .ok bundledDatabase
  | some path => Artifact.load files path

def serverName : String := "html-id-lsp"

def serverVersion : String := "0.1.0"

def greeting : Json :=
  Json.ofMembers
    [("capabilities", Json.ofMembers
       [("textDocumentSync", Json.ofMembers [("openClose", .bool true), ("change", .nat 1)]),
        ("completionProvider", Json.ofMembers [("triggerCharacters", .array [.string "."])]),
        ("hoverProvider", .bool true),
        ("definitionProvider", .bool true)]),
     ("serverInfo", Json.ofMembers
       [("name", .string serverName), ("version", .string serverVersion)])]

def start (setting : Setting) (id : RequestId) (params : Json) : List Sent × Stage :=
  match Params.startup params with
  | none => ([], .ended .invalidStartup)
  | some startup =>
    let config := startConfig setting startup
    match loadDatabase setting.files config.database with
    | .error problem =>
      let path := config.database.getD ""
      ([.failure id (.database path problem)], .ended (.database path))
    | .ok database => ([.result id greeting], .greeted (.start database config.severity))

def publish (update : Option Update) : List Sent :=
  (update.getD []).filterMap fun (uri, diagnostics) =>
    (Encoding.uri? uri).map fun uri =>
      .notification "textDocument/publishDiagnostics"
        (Json.ofMembers
          [("uri", uri), ("diagnostics", .array (diagnostics.map Encoding.diagnostic))])

def event? (method : String) (params : Json) : Option Session.Event :=
  match method with
  | "textDocument/didOpen" => Params.opened params
  | "textDocument/didChange" =>
    (Params.changes params).bind fun ((uri, version), texts) =>
      texts.getLast?.map fun text => .changed uri version text
  | "textDocument/didClose" => (Params.aboutDocument params).map .closed
  | "htmlId/didChangeActiveDocument" => (Params.aboutDocument params).map .focused
  | _ => none

def notify (session : Session) (method : String) (params : Json) : List Sent × Session :=
  match event? method params with
  | none => ([], session)
  | some event =>
    let (answer, session) := session.step event
    let sent := match answer with
      | .update update => publish update
      | _ => []
    (sent, session)

def encodeDefinition (locations : Option (List Location)) : Json :=
  match (locations.getD []).filterMap Encoding.location? with
  | [] => .null
  | encoded => .array encoded

def encodeAnswer : Session.Answer → Json
  | .update _ => .null
  | .completions items => Json.ofOption (items.map fun items => .array (items.map Encoding.completion))
  | .hover hover => Json.ofOption (hover.map Encoding.hover)
  | .definition locations => encodeDefinition locations

def query (method : String) (params : Json) : Except Failure Session.Event :=
  let decoded (place : Option (Uri × Position)) (event : Uri → Position → Session.Event) :
      Except Failure Session.Event :=
    match place with
    | none => .error .invalidParams
    | some (uri, position) => .ok (event uri position)
  match method with
  | "textDocument/completion" => decoded (Params.completion params) .completions
  | "textDocument/hover" => decoded (Params.hover params) .hover
  | "textDocument/definition" => decoded (Params.definition params) .definition
  | _ => .error (.unknownMethod method)

def respond (session : Session) (id : RequestId) (method : String) (params : Json) :
    Sent × Session :=
  match query method params with
  | .error failure => (.failure id failure, session)
  | .ok event =>
    let (answer, session) := session.step event
    (.result id (encodeAnswer answer), session)

def step (setting : Setting) : Stage → Message → List Sent × Stage
  | .waiting, .request id method params =>
    if method = "initialize" then start setting id params
    else ([.failure id .notInitialized], .waiting)
  | .waiting, .notification method _ =>
    if method = "exit" then ([], .ended (.disorder .notARequest)) else ([], .waiting)
  | .waiting, .response _ => ([], .ended (.disorder .notARequest))
  | .greeted session, .notification "initialized" _ =>
    let (update, session) := session.activate none
    (publish update, .running session)
  | .greeted _, _ => ([], .ended (.disorder .notInitialized))
  | .running session, .request id method params =>
    if method = "shutdown" then ([.result id .null], .leaving)
    else
      let (sent, session) := respond session id method params
      ([sent], .running session)
  | .running session, .notification method params =>
    let (sent, session) := notify session method params
    (sent, .running session)
  | .running session, .response _ => ([], .running session)
  | .leaving, .notification "exit" _ => ([], .ended .finished)
  | .leaving, _ => ([], .ended (.disorder .notExit))
  | .ended ending, _ => ([], .ended ending)

def hangUp : Stage → Ending
  | .waiting => .disorder .disconnected
  | .greeted _ => .disorder .disconnected
  | .running _ => .finished
  | .leaving => .disorder .noExit
  | .ended ending => ending

def converse (setting : Setting) (stage : Stage) : List Message → List (List Sent) × Stage
  | [] => ([], stage)
  | message :: rest =>
    let (sent, stage) := step setting stage message
    let (more, stage) := converse setting stage rest
    (sent :: more, stage)

end Server

end HtmlIds
