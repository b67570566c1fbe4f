import LuaFront.Editor.Document
import LuaFront.Editor.Settings
import LuaFront.Scope.Resolve

/-!
Suggestions for a name that is being typed: the visible names that begin with what has been typed
of it, the last declared first.
-/

namespace LuaFront

structure Suggestion where
  name : String
  kind : BindingKind
  deriving DecidableEq

namespace Document

/-- The characters of a name directly before an offset. -/
def typed (d : Document) (pos : Offset) : List Char :=
  match Text.splitAtByte? d.text.toList pos with
  | some (before, _) => (before.reverse.takeWhile Word.isInner).reverse
  | none => []

def suggestions (d : Document) (at_ : Place) (settings : Settings) :
    Except EditorError (List Suggestion) := do
  let pos ← d.offset at_
  let typed := d.typed pos
  let matching := (d.parsed.block.visible pos).reverse.filter fun b =>
    typed.isPrefixOf b.name.toList
  return (matching.take settings.completionLimit).map fun b => ⟨b.name, b.kind⟩

end Document

end LuaFront
