import LuaFront.Grammar.Parse
import LuaFront.Syntax.Tree

/-!
What is read in the same way wherever it stands: names, lists, and the parsers of one nesting
level, from which those of the level around it are made.
-/

namespace LuaFront.Grammar

open Parse

/-- The parsers of one nesting level. What they read may contain further levels. -/
structure Level where
  /-- An expression, whose operators outside parentheses all bind their left operand with more
  than the given power. -/
  expr : (power : Nat) → Parse Expr
  /-- The operators of such an expression, and their right operands, after its first operand. -/
  operators : (power : Nat) → (first : Expr) → Parse Expr
  /-- The suffixes of an expression. Calls are among them only where they are allowed. -/
  suffixes : (calls : Bool) → (base : Expr) → Parse Expr
  /-- Statements up to the token that ends the block, which stands at an offset if it is empty. -/
  block : (anchor : Offset) → Parse Block

/-- Below the deepest level nothing is read. -/
def Level.bottom : Level where
  expr _ := return .invalid none [] 0
  operators _ first := return first
  suffixes _ base := return base
  block anchor := return ⟨[], anchor⟩

/-! ### Names -/

/-- A name, or a missing token. -/
def identifier : Parse Identifier := do return ⟨← expect .ident⟩

/-! ### Lists -/

/-- Puts items on a list, as long as commas come before them. No more than `bound` tokens are
left, and each item takes one. -/
def moreItems {α : Type} (item : Parse α) : (bound : Nat) → Separated α → Parse (Separated α)
  | 0, list => return list
  | bound + 1, list => do
    match ← take? (.symbol .comma) with
    | none => return list
    | some comma =>
      let next ← item
      moreItems item bound ((list.delimit comma).push next)

/-- One item or more, with commas between them, after the first. -/
def itemsAfter {α : Type} (item : Parse α) (anchor : Offset) (first : α) :
    Parse (Separated α) := do
  moreItems item (← remaining) ((Separated.empty anchor).push first)

def commaList {α : Type} (item : Parse α) : Parse (Separated α) := do
  let anchor ← lastStop
  itemsAfter item anchor (← item)

def nameList : Parse (Separated Identifier) := commaList identifier

/-! ### Blocks -/

/-- A block that begins where the last token ended. -/
def Level.blockHere (l : Level) : Parse Block := do l.block (← lastStop)

end LuaFront.Grammar
