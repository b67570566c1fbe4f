import LuaFront.Grammar.Chunk

/-!
A version of a document, parsed, and its places. Editors count lines from zero and columns in
UTF-16 units.
-/

namespace LuaFront

/-- From one place to another, the second not included. -/
structure Range where
  start : Place
  stop : Place
  deriving DecidableEq

inductive EditorError where
  | notOpen (uri : String)
  | outside (at_ : Place)
  deriving DecidableEq

def EditorError.message : EditorError → String
  | notOpen uri => "document '" ++ uri ++ "' is not open"
  | outside p =>
    "position " ++ toString p.line ++ ":" ++ toString p.character ++ " is outside the document"

structure Document where
  version : Int
  text : String
  parsed : Parsed

namespace Document

def ofText (version : Int) (text : String) : Document := ⟨version, text, .ofSource text⟩

def root (d : Document) : Node := .block d.parsed.block

/-- The offset of a place. A column past the end of a line stands for the end; a missing line is
an error. -/
def offset (d : Document) (at_ : Place) : Except EditorError Offset :=
  match d.parsed.lines.ofPlace? d.text at_ with
  | some pos => .ok pos
  | none => .error (.outside at_)

def place? (d : Document) (pos : Offset) : Option Place := d.parsed.lines.toPlace? d.text pos

def range? (d : Document) (span : Span) : Option Range := do
  return ⟨← d.place? span.start, ← d.place? span.stop⟩

end Document

end LuaFront
