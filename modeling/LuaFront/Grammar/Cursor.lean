import LuaFront.Token.Basic

/-!
A place in a list of tokens that ends with a token for the end of input. The tokens behind the
place have been consumed, those ahead have not; the end of input never is.
-/

namespace LuaFront

/-- The tokens behind are in reverse order. -/
structure Cursor where
  behind : List Token
  ahead : List Token
  eof : Token

namespace Cursor

/-- Before the first of the tokens. An end of input is added where the tokens lack one. -/
def ofTokens (tokens : List Token) : Cursor :=
  match tokens.getLast? with
  | none => ⟨[], [], .missing .eof 0⟩
  | some last =>
    if last.kind = .eof then ⟨[], tokens.dropLast, last⟩
    else ⟨[], tokens, .missing .eof last.span.stop⟩

/-- All tokens, the end of input included. -/
def tokens (c : Cursor) : List Token := c.behind.reverse ++ c.ahead ++ [c.eof]

/-- The number of tokens consumed. -/
def pos (c : Cursor) : Nat := c.behind.length

def current (c : Cursor) : Token := c.ahead.head?.getD c.eof

/-- The token after the current one, or the end of input. -/
def next (c : Cursor) : Token := c.ahead.tail.head?.getD c.eof

/-- Consumes the current token, unless it is an end of input. -/
def advance (c : Cursor) : Cursor :=
  match c.ahead with
  | [] => c
  | t :: ahead => if t.kind = .eof then c else { c with behind := t :: c.behind, ahead }

/-- The end of the last token consumed, or the start of input. -/
def lastStop (c : Cursor) : Offset :=
  match c.behind with
  | [] => 0
  | t :: _ => t.span.stop

/-- The tokens that can still be consumed. -/
def remaining (c : Cursor) : List Token := c.ahead.takeWhile (·.kind ≠ .eof)

/-- Consumes everything. -/
def finish (c : Cursor) : Cursor :=
  { c with
    behind := c.remaining.reverse ++ c.behind
    ahead := c.ahead.dropWhile (·.kind ≠ .eof) }

/-- The place after the first `pos` tokens, or before the end of input if there are fewer. -/
def goTo (c : Cursor) (pos : Nat) : Cursor :=
  let all := c.behind.reverse ++ c.ahead
  { c with behind := (all.take pos).reverse, ahead := all.drop pos }

@[simp] theorem tokens_advance (c : Cursor) : c.advance.tokens = c.tokens := by
  unfold advance
  split
  · rfl
  · split <;> simp_all [tokens]

@[simp] theorem tokens_finish (c : Cursor) : c.finish.tokens = c.tokens := by
  simp [finish, remaining, tokens]

@[simp] theorem tokens_goTo (c : Cursor) (pos : Nat) : (c.goTo pos).tokens = c.tokens := by
  simp [goTo, tokens]

end Cursor

end LuaFront
