/-!
# Diagnostics

What is reported to a user: a severity, a message, and optionally a stable code, a subject (the
federate, instance or reference it is about) and a hint.
-/

namespace ReactorSynth

/-- The severity of a diagnostic. -/
inductive Severity where
  | error
  | warning
  deriving DecidableEq, Repr, Inhabited

/-- The word for a severity. -/
def Severity.text : Severity → String
  | error => "error"
  | warning => "warning"

/-- A report about a program. -/
structure Diagnostic where
  severity : Severity
  message : String
  code : Option String := none
  hint : Option String := none
  subject : Option String := none
  deriving DecidableEq, Repr, Inhabited

namespace Diagnostic

/-- Whether the diagnostic reports an error. -/
def isError (d : Diagnostic) : Bool := d.severity == .error

/-- The diagnostic about another subject. -/
def withSubject (d : Diagnostic) (subject : String) : Diagnostic :=
  { d with subject := some subject }

/-- The printed form: severity, code and message on one line, then the subject and the hint on
lines of their own where present. -/
def text (d : Diagnostic) : String :=
  let code := match d.code with
    | none => ""
    | some code => "[" ++ code ++ "]"
  let subject := match d.subject with
    | none => ""
    | some subject => "\n  --> " ++ subject
  let hint := match d.hint with
    | none => ""
    | some hint => "\n  hint: " ++ hint
  d.severity.text ++ code ++ ": " ++ d.message ++ subject ++ hint

end Diagnostic

end ReactorSynth
