import HtmlIds.Editor.Host
import HtmlIds.Session.Documents

namespace HtmlIds

inductive Phase where
  | inactive | activeNoIndex | activeWithIndex
deriving DecidableEq, Repr

/-- The lists of diagnostics to show for documents, by ascending identifier; an empty list clears
what is shown. -/
abbrev Update := List (Uri × List Diagnostic)

structure Session where
  phase : Phase := .inactive
  documents : Documents := .empty
  host : Host
  published : List Uri := []
deriving DecidableEq, Repr

namespace Session

def start (database : Database) (duplicateIds : RuleSeverity) : Session where
  host := { Host.ofDatabase database with duplicateIds }

def publication (published : List Uri) (current : OrderedMap (List Diagnostic)) : Update :=
  let cleared := published.filter (!current.contains ·)
  (cleared.map (·, []) ++ current.entries).mergeSort fun a b => decide (a.1 ≤ b.1)

def takeDiagnostics (session : Session) : Update × Session :=
  let current := session.host.diagnostics
  (publication session.published current, { session with published := current.keys })

def eligible? (session : Session) (uri : Uri) : Option Document :=
  (session.documents.find? uri).filter Document.isEligible

def scanned (session : Session) (uri : Uri) (text : String) : Session :=
  { session with host := session.host.rebuild uri text, phase := .activeWithIndex }

def rescan (session : Session) (uri : Uri) : Option Update × Session :=
  if session.phase = .inactive then (none, session)
  else
    match session.eligible? uri with
    | none => (none, session)
    | some document =>
      let (update, session) := (session.scanned uri document.text).takeDiagnostics
      (some update, session)

def queryable? (session : Session) (uri : Uri) : Option Document :=
  if session.phase = .inactive then none else session.eligible? uri

inductive Event where
  | activate : Option Uri → Event
  | opened : Uri → String → Int → String → Event
  | changed : Uri → Int → String → Event
  | focused : Uri → Event
  | closed : Uri → Event
  | completions : Uri → Position → Event
  | hover : Uri → Position → Event
  | definition : Uri → Position → Event
deriving DecidableEq, Repr

inductive Answer where
  | update : Option Update → Answer
  | completions : Option (List CompletionItem) → Answer
  | hover : Option Hover → Answer
  | definition : Option (List Location) → Answer
deriving DecidableEq, Repr

def activate (session : Session) (focused : Option Uri) : Option Update × Session :=
  if session.phase ≠ .inactive then (none, session)
  else
    let session := { session with phase := .activeNoIndex }
    match focused with
    | none => (none, session)
    | some uri => session.rescan uri

def opened (session : Session) (uri : Uri) (language : String) (version : Int) (text : String) :
    Option Update × Session :=
  let documents := session.documents.opened uri language version text
  { session with documents : Session }.rescan uri

def changed (session : Session) (uri : Uri) (version : Int) (text : String) :
    Option Update × Session :=
  match session.documents.changed? uri version text with
  | none => (none, session)
  | some documents => { session with documents : Session }.rescan uri

def closed (session : Session) (uri : Uri) : Session :=
  { session with documents := session.documents.erase uri }

def completions (session : Session) (uri : Uri) (position : Position) :
    Option (List CompletionItem) × Session :=
  match session.queryable? uri with
  | none => (none, session)
  | some document =>
    let (items, host) := session.host.completions document.text position
    (items, { session with host })

def hover? (session : Session) (uri : Uri) (position : Position) : Option Hover :=
  (session.queryable? uri).bind fun document => session.host.hover? document.text position

def definition? (session : Session) (uri : Uri) (position : Position) : Option (List Location) :=
  (session.queryable? uri).bind fun document => session.host.definition? document.text position

def step (session : Session) : Event → Answer × Session
  | .activate focused =>
    let (update, session) := session.activate focused
    (.update update, session)
  | .opened uri language version text =>
    let (update, session) := session.opened uri language version text
    (.update update, session)
  | .changed uri version text =>
    let (update, session) := session.changed uri version text
    (.update update, session)
  | .focused uri =>
    let (update, session) := session.rescan uri
    (.update update, session)
  | .closed uri => (.update none, session.closed uri)
  | .completions uri position =>
    let (items, session) := session.completions uri position
    (.completions items, session)
  | .hover uri position => (.hover (session.hover? uri position), session)
  | .definition uri position => (.definition (session.definition? uri position), session)

def run (session : Session) : List Event → List Answer × Session
  | [] => ([], session)
  | event :: events =>
    let (answer, session) := session.step event
    let (answers, session) := session.run events
    (answer :: answers, session)

end Session

end HtmlIds
