import LuaFront.Editor.Document
import Std.Data.TreeMap

/-!
The open documents, by URI. Of each the newest version is kept: an older one that arrives later is
dropped, one with the same number replaces it.
-/

namespace LuaFront

/-- The document that is current after a new version arrives. -/
def Document.revise (d : Document) (version : Int) (text : String) : Document :=
  if version < d.version then d else .ofText version text

structure Workspace where
  documents : Std.TreeMap String Document

namespace Workspace

def empty : Workspace := ⟨∅⟩

def document (w : Workspace) (uri : String) : Except EditorError Document :=
  match w.documents[uri]? with
  | some d => .ok d
  | none => .error (.notOpen uri)

/-- Replaces a document that is open. Gives what is current then. -/
def update (w : Workspace) (uri : String) (version : Int) (text : String) :
    Except EditorError (Document × Workspace) := do
  let d := (← w.document uri).revise version text
  return (d, ⟨w.documents.insert uri d⟩)

/-- Opens a document, or updates it if it is open. Gives what is current then. -/
def open_ (w : Workspace) (uri : String) (version : Int) (text : String) : Document × Workspace :=
  let d :=
    match w.documents[uri]? with
    | some d => d.revise version text
    | none => .ofText version text
  (d, ⟨w.documents.insert uri d⟩)

/-- Closes a document, and tells whether it was open. -/
def close (w : Workspace) (uri : String) : Bool × Workspace :=
  (w.documents.contains uri, ⟨w.documents.erase uri⟩)

/-- The URIs of the open documents, in order. -/
def uris (w : Workspace) : List String := w.documents.keys

end Workspace

end LuaFront
