import LuaFront.Editor.JsonToken
import LuaFront.Text.Blank

/-!
The settings of an editor, and how they are read. A settings text is a JSON object, whose members
may come in any order and may be left out, or an array of the values in the order of the fields,
whose last ones may be left out. What is left out keeps its default.
-/

namespace LuaFront

structure Settings where
  /-- No more diagnostics of one document are shown. -/
  maxDiagnostics : Nat := 100
  /-- Comments on a declaration are shown with its name. -/
  hoverDocComments : Bool := true
  /-- No more names are suggested. -/
  completionLimit : Nat := 200
  deriving DecidableEq

namespace Settings

inductive Field where
  | maxDiagnostics | hoverDocComments | completionLimit
  deriving DecidableEq

namespace Field

def key : Field → String
  | maxDiagnostics => "max_diagnostics"
  | hoverDocComments => "hover_doc_comments"
  | completionLimit => "completion_limit"

def all : List Field := [maxDiagnostics, hoverDocComments, completionLimit]

end Field

inductive Error where
  /-- The text does not hold settings. -/
  | unreadable
  /-- A limit is zero. -/
  | zero (field : Field)
  deriving DecidableEq

def Error.message : Error → String
  | unreadable => "invalid configuration: settings expected"
  | zero field => "invalid configuration: " ++ field.key ++ " must be at least 1"

/-- Gives a field a value of its type. -/
def set? (s : Settings) : Field → JsonToken → Option Settings
  | .maxDiagnostics, .number n => some { s with maxDiagnostics := n }
  | .hoverDocComments, .flag b => some { s with hoverDocComments := b }
  | .completionLimit, .number n => some { s with completionLimit := n }
  | _, _ => none

/-! ### The two notations -/

/-- The members of an object that has some, after its opening brace. -/
def members? : List JsonToken → Option (List (List Char × JsonToken))
  | [.text name, .colon, value, .closeBrace] => some [(name, value)]
  | .text name :: .colon :: value :: .comma :: rest =>
    (members? rest).map ((name, value) :: ·)
  | _ => none

/-- The elements of an array that has some, after its opening bracket. -/
def elements? : List JsonToken → Option (List JsonToken)
  | [value, .closeBracket] => some [value]
  | value :: .comma :: rest => (elements? rest).map (value :: ·)
  | _ => none

/-- Members with the fields that they name. A field is named once at most. -/
def named? (fields : List Field) :
    List (List Char × JsonToken) → Option (List (Field × JsonToken))
  | [] => some []
  | (name, value) :: rest => do
    let field ← fields.find? (·.key.toList = name)
    return (field, value) :: (← named? (fields.erase field) rest)

/-- Elements with the fields in their order. -/
def positioned? (values : List JsonToken) : Option (List (Field × JsonToken)) :=
  if values.length ≤ Field.all.length then some (Field.all.zip values) else none

def entries? : List JsonToken → Option (List (Field × JsonToken))
  | [.openBrace, .closeBrace] => some []
  | .openBrace :: rest => (members? rest).bind (named? Field.all)
  | [.openBracket, .closeBracket] => some []
  | .openBracket :: rest => (elements? rest).bind positioned?
  | _ => none

/-! ### Reading -/

def read? (cs : List Char) : Option Settings := do
  let entries ← entries? (← JsonToken.ofChars? cs)
  entries.foldlM (fun s (field, value) => s.set? field value) {}

/-- Settings whose limits are not zero. -/
def checked (s : Settings) : Except Error Settings :=
  if s.maxDiagnostics = 0 then .error (.zero .maxDiagnostics)
  else if s.completionLimit = 0 then .error (.zero .completionLimit)
  else .ok s

/-- Reads a settings text. A blank one leaves everything at its default. -/
def ofText (text : String) : Except Error Settings :=
  match Text.trim text.toList with
  | [] => .ok {}
  | cs =>
    match read? cs with
    | some s => s.checked
    | none => .error .unreadable

end Settings

end LuaFront
