import LuaFront.Diagnostic.Basic
import LuaFront.Position.LineTable

/-!
Diagnostics as lines of text, in the order of their places, with lines and columns counted from
one.
-/

namespace LuaFront.Diagnostic

/-- By span, then by message. -/
def listedBefore (s : Span) (message : String) (t : Span) (other : String) : Bool :=
  s.precedes t || s = t && message ≤ other

/-- A place in the listing: line, column and span. An offset outside the text is at 0:0. -/
def listedPlace (table : LineTable) (span : Span) : String :=
  let (line, col) := match table.lineCol? span.start with
    | some place => (place.line + 1, place.col + 1)
    | none => (0, 0)
  s!"{line}:{col} [{span.start}..{span.stop}]"

def listedLabel (table : LineTable) (l : Label) : String :=
  "  = label: " ++ listedPlace table l.span ++ " " ++ l.message.getD "" ++ "\n"

def listed (table : LineTable) (d : Diagnostic) : String :=
  let labels := d.labels.mergeSort fun k l =>
    listedBefore k.span (k.message.getD "") l.span (l.message.getD "")
  d.severity.name ++ ": " ++ d.message ++ "\n"
    ++ "  --> <input>:" ++ listedPlace table d.span ++ "\n"
    ++ String.join (labels.map (listedLabel table))

/-- The listing of diagnostics about a source text. -/
def listing (source : String) (ds : List Diagnostic) : String :=
  let table := LineTable.ofSource source
  let ordered := ds.mergeSort fun d e => listedBefore d.span d.message e.span e.message
  String.join (ordered.map (listed table))

end LuaFront.Diagnostic
