import LuaFront.Position.Span

/-!
Byte offsets as lines and columns, and back. A line ends with its line feed, which belongs to it.
Lines and columns count from zero; a byte column counts bytes, an editor column UTF-16 code units.
-/

namespace LuaFront

/-- A line and a byte column. -/
structure LineCol where
  line : Nat
  col : Nat
  deriving DecidableEq

/-- A line and an editor column. -/
structure Place where
  line : Nat
  character : Nat
  deriving DecidableEq

/-- The offsets of all line feeds of a text, in increasing order, and its size in bytes. -/
structure LineTable where
  breaks : List Offset
  size : Offset
  deriving DecidableEq

namespace LineTable

/-- The offsets of the line feeds among characters that begin at `offset`. -/
def breaksFrom (offset : Offset) : List Char → List Offset
  | [] => []
  | c :: cs =>
    if c = '\n' then offset :: breaksFrom (offset + 1) cs
    else breaksFrom (offset + c.utf8Size) cs

theorem breaksFrom_append (offset : Offset) (as bs : List Char) :
    breaksFrom offset (as ++ bs)
      = breaksFrom offset as ++ breaksFrom (offset + Text.byteSize as) bs := by
  induction as generalizing offset with
  | nil => rfl
  | cons c as ih =>
    have hfeed : '\n'.utf8Size = 1 := rfl
    simp only [List.cons_append, breaksFrom, Text.byteSize, ih]
    split <;> simp_all [Nat.add_assoc]

def ofSource (source : String) : LineTable :=
  { breaks := breaksFrom 0 source.toList, size := Text.byteSize source.toList }

def lineCount (t : LineTable) : Nat := t.breaks.length + 1

/-- The offset at which a line begins. -/
def lineStart? (t : LineTable) : Nat → Option Offset
  | 0 => some 0
  | line + 1 => t.breaks[line]?.map (· + 1)

/-- The offset of the line feed that ends a line, or of the end of the text for the last line. -/
def lineEnd? (t : LineTable) (line : Nat) : Option Offset :=
  if line < t.lineCount then some (t.breaks[line]?.getD t.size) else none

/-! ### Byte columns -/

/-- The line of an offset is the number of line feeds before it. -/
def lineCol? (t : LineTable) (offset : Offset) : Option LineCol :=
  if t.size < offset then none
  else
    let line := t.breaks.countP (· < offset)
    (t.lineStart? line).map fun start => ⟨line, offset - start⟩

def offset? (t : LineTable) (target : LineCol) : Option Offset := do
  let start ← t.lineStart? target.line
  let stop ← t.lineEnd? target.line
  guard (start + target.col ≤ stop)
  return start + target.col

/-! ### Editor columns -/

/-- The last boundary from `start` on that is not past `start + above`, or `start` itself. -/
def boundaryBelow (source : List Char) (start : Offset) : Nat → Offset
  | 0 => start
  | above + 1 =>
    if Text.isBoundary source (start + above + 1) then start + above + 1
    else boundaryBelow source start above

/-- The editor place of an offset. An offset inside a character counts as that character's
start. -/
def toPlace? (t : LineTable) (source : String) (offset : Offset) : Option Place := do
  let ⟨line, col⟩ ← t.lineCol? offset
  let start ← t.lineStart? line
  let stop := boundaryBelow source.toList start col
  let front ← Text.slice? source.toList start stop
  return ⟨line, Text.unitSize front⟩

/-- The bytes before the first character whose editor column is `units` or more. -/
def bytesBefore? : List Char → (units : Nat) → Option Nat
  | [], _ => none
  | c :: cs, units =>
    if units = 0 then some 0
    else (bytesBefore? cs (units - Text.unitsOf c)).map (c.utf8Size + ·)

/-- The offset of an editor place. A column past the end of its line counts as that end. -/
def ofPlace? (t : LineTable) (source : String) (place : Place) : Option Offset := do
  let start ← t.lineStart? place.line
  let stop ← t.lineEnd? place.line
  let text ← Text.slice? source.toList start stop
  return ((bytesBefore? text place.character).map (start + ·)).getD stop

end LineTable

end LuaFront
