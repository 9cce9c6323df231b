import DepLock.Console.Log

/-!
# Diagnostics

A diagnostic tells of a failure, the circumstances that led to it, and what to try.
-/

namespace DepLock

/-- How grave a diagnostic is. -/
inductive Severity where
  | error
  | warning
  deriving DecidableEq, Repr

/-- The word for a severity. -/
def Severity.label : Severity → String
  | error => "error"
  | warning => "warning"

/-- A failure with its circumstances and suggestions. -/
structure Diagnostic where
  severity : Severity := .error
  message : String
  context : List String := []
  suggestions : List String := []
  deriving DecidableEq, Repr

namespace Diagnostic

/-- The suggestions on numbered lines, counted from `n`. -/
def numbered : Nat → List String → String
  | _, [] => ""
  | n, s :: rest => s!"  {n}. {s}\n" ++ numbered (n + 1) rest

/-- The text of a diagnostic: the message, a line for each circumstance, and the suggestions after
an empty line. -/
def render (d : Diagnostic) : String :=
  s!"{d.severity.label}: {d.message}\n"
    ++ String.join (d.context.map fun c => s!"  -> {c}\n")
    ++ if d.suggestions.isEmpty then "" else "\nhelp: consider:\n" ++ numbered 1 d.suggestions

/-- The diagnostic as a block of text. -/
def toMessage (d : Diagnostic) : Message := .block d.render

end Diagnostic
end DepLock
