import LuaFront.Editor.Document
import LuaFront.Editor.Settings

/-!
The diagnostics of a document as an editor shows them.
-/

namespace LuaFront

structure Problem where
  range : Range
  severity : Severity
  message : String

/-- The first diagnostics, in the order of the text, as many as the settings allow. -/
def Document.problems (d : Document) (settings : Settings) : List Problem :=
  let all := d.parsed.diagnostics.filterMap fun x =>
    (d.range? x.span).map fun range => ⟨range, x.severity, x.message⟩
  all.take settings.maxDiagnostics

end LuaFront
