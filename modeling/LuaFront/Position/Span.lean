import LuaFront.Text.Bytes

/-!
Spans of source text: a start and an end byte offset, the end not included. A span of width zero
marks a place where something is missing, and contains its own start only.
-/

namespace LuaFront

/-- A byte offset into the source text. -/
abbrev Offset := Nat

/-- The largest offset, which stands for the end of what has none. -/
def unbounded : Offset := 0xffffffff

structure Span where
  start : Offset
  stop : Offset
  deriving DecidableEq

namespace Span

/-- The span of width zero at an offset. -/
def empty (offset : Offset) : Span := ⟨offset, offset⟩

/-- From the start of one span to the end of another. -/
def through (s t : Span) : Span := ⟨s.start, t.stop⟩

/-- From the start of the first span to the end of the last, or to that start where the last ends
before it. -/
def join (first last : Span) : Span := ⟨first.start, max last.stop first.start⟩

def size (s : Span) : Nat := s.stop - s.start

def isEmpty (s : Span) : Bool := s.start = s.stop

def contains (s : Span) (offset : Offset) : Bool :=
  if s.isEmpty then offset = s.start else s.start ≤ offset && offset < s.stop

/-- Both ends of `t` lie within `s`. -/
def encloses (s t : Span) : Bool := s.start ≤ t.start && t.stop ≤ s.stop

/-- Earlier start, or the same start and an earlier end. -/
def precedes (s t : Span) : Bool := s.start < t.start || s.start = t.start && s.stop < t.stop

/-- The same order, with equal spans allowed. -/
def precedesOrEq (s t : Span) : Bool :=
  s.start < t.start || s.start = t.start && s.stop ≤ t.stop

def shift (s : Span) (distance : Nat) : Span := ⟨s.start + distance, s.stop + distance⟩

/-- The source text that a span covers, if both its ends are boundaries. -/
def slice? (s : Span) (source : String) : Option String :=
  (Text.slice? source.toList s.start s.stop).map String.ofList

end Span

end LuaFront
