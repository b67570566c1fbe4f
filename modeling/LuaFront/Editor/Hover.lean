import LuaFront.Editor.Occurrence
import LuaFront.Editor.Settings
import LuaFront.Token.DocComment

/-!
What is shown for the name under the cursor: how it is declared and the comment on its declaration.
-/

namespace LuaFront

structure Hover where
  range : Range
  name : String
  /-- How the name is declared; a global name is not. -/
  kind : Option BindingKind
  doc : Option String

namespace Hover

def kindName (h : Hover) : String :=
  match h.kind with
  | some kind => kind.name
  | none => "global"

/-- The comment comes below a line. -/
def markdown (h : Hover) : String :=
  "```lua\n(" ++ h.kindName ++ ") " ++ h.name ++ "\n```"
    ++ match h.doc with
      | some doc => "\n\n---\n\n" ++ doc
      | none => ""

end Hover

/-- Comments are shown for locals and local functions, whose declarations are statements. -/
def BindingKind.isCommented : BindingKind → Bool
  | local_ | localFunction => true
  | parameter | loopVariable => false

def Document.hover (d : Document) (at_ : Place) (settings : Settings) :
    Except EditorError (Option Hover) := do
  let name ← d.nameAt at_
  return name.bind fun id => do
    let range ← d.range? id.token.span
    let binding := d.resolve? id
    let commented := binding.filter fun b => settings.hoverDocComments && b.kind.isCommented
    return ⟨range, id.name, binding.map (·.kind),
      commented.bind fun b => Trivia.docComment? b.decl.trivia⟩

end LuaFront
