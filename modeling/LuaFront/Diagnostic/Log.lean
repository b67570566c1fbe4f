import LuaFront.Diagnostic.Basic

/-!
Diagnostics in the order in which they were reported. A log only grows, except that what was
reported after some earlier state can be taken back.
-/

namespace LuaFront

structure Log where
  entries : List Diagnostic
  deriving DecidableEq

namespace Log

def empty : Log := ⟨[]⟩

def size (l : Log) : Nat := l.entries.length

def isEmpty (l : Log) : Bool := l.entries.isEmpty

def push (l : Log) (d : Diagnostic) : Log := ⟨l.entries ++ [d]⟩

def warn (l : Log) (span : Span) (message : String) : Log := l.push (.warning span message)

def error (l : Log) (span : Span) (message : String) (labels : List Label) : Log :=
  l.push (.error span message labels)

/-- The first `size` entries. -/
def truncate (l : Log) (size : Nat) : Log := ⟨l.entries.take size⟩

end Log

end LuaFront
