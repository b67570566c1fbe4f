import LuaFront.Position.Span

/-!
What is reported about a text: a severity, a message, the span that it is about, and labels that
point to further places.
-/

namespace LuaFront

inductive Severity where
  | error
  | warning
  deriving DecidableEq

def Severity.name : Severity → String
  | error => "error"
  | warning => "warning"

/-- A further place that a diagnostic points to. -/
structure Label where
  span : Span
  message : Option String
  deriving DecidableEq

structure Diagnostic where
  severity : Severity
  message : String
  span : Span
  labels : List Label
  deriving DecidableEq

namespace Diagnostic

def error (span : Span) (message : String) (labels : List Label) : Diagnostic :=
  { severity := .error, message, span, labels }

def warning (span : Span) (message : String) : Diagnostic :=
  { severity := .warning, message, span, labels := [] }

/-- The same diagnostic about a text that begins further on. -/
def shift (d : Diagnostic) (distance : Nat) : Diagnostic :=
  { d with
    span := d.span.shift distance
    labels := d.labels.map fun l => { l with span := l.span.shift distance } }

/-- In the order of their spans; diagnostics of equal spans keep their order. -/
def sorted (ds : List Diagnostic) : List Diagnostic :=
  ds.mergeSort fun d e => d.span.precedesOrEq e.span

end Diagnostic

end LuaFront
