namespace HtmlIds

inductive ReportFormat where
  | human | json
deriving DecidableEq, Repr

def ReportFormat.ofName? : String → Option ReportFormat
  | "human" => some .human
  | "json" => some .json
  | _ => none

structure Options where
  config : Option String := none
  color : Bool := false
  noColor : Bool := false
  quiet : Bool := false
deriving DecidableEq, Repr

def Options.over (inner outer : Options) : Options where
  config := inner.config.or outer.config
  color := inner.color || outer.color
  noColor := inner.noColor || outer.noColor
  quiet := inner.quiet || outer.quiet

inductive Invocation where
  | check : Options → List String → ReportFormat → Invocation
  | serve : Options → Invocation
  | version : Invocation
  | refused : Invocation
deriving DecidableEq, Repr

namespace Arguments

inductive Level where
  | outer | check | serve
deriving DecidableEq, Repr

inductive Flag where
  | config | color | noColor | quiet | format | version
deriving DecidableEq, Repr

def Flag.isKnown : Flag → Level → Bool
  | .format, level => level = .check
  | .version, level => level = .outer
  | _, _ => true

def Flag.takesValue : Flag → Bool
  | .config | .format => true
  | _ => false

def Flag.ofName? : String → Option Flag
  | "config" => some .config
  | "color" => some .color
  | "no-color" => some .noColor
  | "quiet" => some .quiet
  | "format" => some .format
  | "version" => some .version
  | _ => none

def Flag.ofLetter? : Char → Option Flag
  | 'c' => some .config
  | 'q' => some .quiet
  | 'f' => some .format
  | 'V' => some .version
  | _ => none

/-- What has been given on one level, paths in reverse order. -/
structure Given where
  options : Options := {}
  format : Option ReportFormat := none
  paths : List String := []
deriving DecidableEq, Repr

def Given.set (given : Given) (flag : Flag) : Option Given :=
  let options := given.options
  match flag with
  | .color => if options.color then none else some { given with options := { options with color := true } }
  | .noColor =>
    if options.noColor then none else some { given with options := { options with noColor := true } }
  | .quiet => if options.quiet then none else some { given with options := { options with quiet := true } }
  | _ => none

def Given.assign (given : Given) (flag : Flag) (value : String) : Option Given :=
  match flag with
  | .config =>
    if given.options.config.isSome || value = "" then none
    else some { given with options := { given.options with config := some value } }
  | .format =>
    if given.format.isSome then none
    else (ReportFormat.ofName? value).map fun format => { given with format := some format }
  | _ => none

inductive Progress where
  | given : Given → Progress
  | waits : Given → Flag → Progress
  | version : Progress
  | refused : Progress
deriving DecidableEq, Repr

def Progress.ofOption : Option Given → Progress
  | some sum => .given sum
  | none => .refused

def readLong (level : Level) (given : Given) (text : List Char) : Progress :=
  let name := text.takeWhile (· != '=')
  let value := (text.drop name.length).tail?
  match (Flag.ofName? (String.ofList name)).filter (·.isKnown level), value with
  | none, _ => .refused
  | some .version, none => .version
  | some flag, none => if flag.takesValue then .waits given flag else .ofOption (given.set flag)
  | some flag, some value => .ofOption (given.assign flag (String.ofList value))

def readLetters (level : Level) : Given → List Char → Progress
  | given, [] => .given given
  | given, letter :: rest =>
    match (Flag.ofLetter? letter).filter (·.isKnown level) with
    | none => .refused
    | some .version => .version
    | some flag =>
      if flag.takesValue then
        match rest with
        | [] => .waits given flag
        | '=' :: value => .ofOption (given.assign flag (String.ofList value))
        | value => .ofOption (given.assign flag (String.ofList value))
      else
        match given.set flag with
        | none => .refused
        | some given => readLetters level given rest

def isOption (argument : String) : Bool :=
  argument.toList.head? == some '-' && argument ≠ "-"

def readOption (level : Level) (given : Given) (argument : String) : Progress :=
  match argument.toList with
  | '-' :: '-' :: name => readLong level given name
  | _ :: letters => readLetters level given letters
  | [] => .refused

def Given.addPaths (given : Given) (paths : List String) : Option Given :=
  if paths.contains "" then none else some { given with paths := paths.reverse ++ given.paths }

def finish (outer : Options) (level : Level) (given : Given) : Invocation :=
  if given.options.color && given.options.noColor then .refused
  else
    let options := given.options.over outer
    match level with
    | .outer => .refused
    | .check => .check options given.paths.reverse (given.format.getD .human)
    | .serve => if given.paths = [] then .serve options else .refused

def read (outer : Options) (level : Level) (given : Given) : List String → Invocation
  | [] => finish outer level given
  | argument :: rest =>
    if argument = "--" then
      match given.addPaths rest with
      | none => .refused
      | some given => finish outer level given
    else if isOption argument then
      match readOption level given argument with
      | .given given => read outer level given rest
      | .version => .version
      | .refused => .refused
      | .waits given flag =>
        match rest with
        | [] => .refused
        | value :: rest =>
          if isOption value then .refused
          else
            match given.assign flag value with
            | none => .refused
            | some given => read outer level given rest
    else
      match level with
      | .check =>
        match given.addPaths [argument] with
        | none => .refused
        | some given => read outer level given rest
      | .serve => .refused
      | .outer =>
        if given.options.color && given.options.noColor then .refused
        else if argument = "check" then read given.options .check {} rest
        else if argument = "lsp" then read given.options .serve {} rest
        else .refused

end Arguments

def versionText : String := "html-id 0.1.0\n"

def Invocation.ofArguments (arguments : List String) : Invocation :=
  Arguments.read {} .outer {} arguments

end HtmlIds
