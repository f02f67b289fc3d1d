import HtmlIds.Text.Blank

namespace HtmlIds

inductive Severity where
  | error | warning | information | hint
deriving DecidableEq, Repr, Inhabited

namespace Severity

def isError : Severity → Bool
  | .error => true
  | _ => false

def display : Severity → String
  | .error => "error"
  | .warning => "warning"
  | .information => "info"
  | .hint => "hint"

end Severity

inductive RuleSeverity where
  | off | warn | error
deriving DecidableEq, Repr

structure UnknownSeverity where
  text : String
deriving DecidableEq, Repr

def UnknownSeverity.message (problem : UnknownSeverity) : String :=
  "unknown severity '" ++ problem.text ++ "', expected one of: off, warn, error"

namespace RuleSeverity

instance : Inhabited RuleSeverity := ⟨.error⟩

def isEnabled : RuleSeverity → Bool
  | .off => false
  | _ => true

def severity? : RuleSeverity → Option Severity
  | .off => none
  | .warn => some .warning
  | .error => some .error

def display : RuleSeverity → String
  | .off => "off"
  | .warn => "warn"
  | .error => "error"

def parse (text : String) : Except UnknownSeverity RuleSeverity :=
  match String.ofList (asciiLower (trim text.toList)) with
  | "off" => .ok .off
  | "warn" => .ok .warn
  | "warning" => .ok .warn
  | "error" => .ok .error
  | _ => .error ⟨text⟩

end RuleSeverity

end HtmlIds
