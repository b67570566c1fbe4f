import LuaFront.Token.Kind

/-!
The operators of expressions and how tightly they bind. A binary operator binds its left operand
with one power and its right operand with another: with equal powers it groups to the left, with
a lower right power to the right.
-/

namespace LuaFront

inductive UnaryOp where
  | not_ | neg | len | bnot
  deriving DecidableEq

namespace UnaryOp

def spelling : UnaryOp → String
  | not_ => "not" | neg => "-" | len => "#" | bnot => "~"

/-- Every unary operator binds tighter than every binary one but the power operator. -/
def power (_ : UnaryOp) : Nat := 12

def all : List UnaryOp := [not_, neg, len, bnot]

end UnaryOp

inductive BinaryOp where
  | or_ | and_ | lt | gt | le | ge | ne | eq | bor | bxor | band | shl | shr | concat | add | sub
  | mul | div | idiv | mod | pow
  deriving DecidableEq

namespace BinaryOp

def spelling : BinaryOp → String
  | or_ => "or" | and_ => "and" | lt => "<" | gt => ">" | le => "<=" | ge => ">=" | ne => "~="
  | eq => "==" | bor => "|" | bxor => "~" | band => "&" | shl => "<<" | shr => ">>"
  | concat => ".." | add => "+" | sub => "-" | mul => "*" | div => "/" | idiv => "//"
  | mod => "%" | pow => "^"

/-- The powers with which an operator binds its left and its right operand. -/
def powers : BinaryOp → Nat × Nat
  | or_ => (1, 1)
  | and_ => (2, 2)
  | lt | gt | le | ge | ne | eq => (3, 3)
  | bor => (4, 4)
  | bxor => (5, 5)
  | band => (6, 6)
  | shl | shr => (7, 7)
  | concat => (9, 8)
  | add | sub => (10, 10)
  | mul | div | idiv | mod => (11, 11)
  | pow => (14, 13)

def leftPower (op : BinaryOp) : Nat := op.powers.1

def rightPower (op : BinaryOp) : Nat := op.powers.2

def all : List BinaryOp :=
  [or_, and_, lt, gt, le, ge, ne, eq, bor, bxor, band, shl, shr, concat, add, sub, mul, div, idiv,
   mod, pow]

end BinaryOp

namespace TokenKind

def unaryOp? : TokenKind → Option UnaryOp
  | keyword .not_ => some .not_
  | symbol .minus => some .neg
  | symbol .pound => some .len
  | symbol .tilde => some .bnot
  | _ => none

def binaryOp? : TokenKind → Option BinaryOp
  | keyword .or_ => some .or_
  | keyword .and_ => some .and_
  | symbol .lt => some .lt
  | symbol .gt => some .gt
  | symbol .le => some .le
  | symbol .ge => some .ge
  | symbol .ne => some .ne
  | symbol .eqEq => some .eq
  | symbol .pipe => some .bor
  | symbol .tilde => some .bxor
  | symbol .amp => some .band
  | symbol .shl => some .shl
  | symbol .shr => some .shr
  | symbol .dotDot => some .concat
  | symbol .plus => some .add
  | symbol .minus => some .sub
  | symbol .star => some .mul
  | symbol .slash => some .div
  | symbol .slashSlash => some .idiv
  | symbol .percent => some .mod
  | symbol .caret => some .pow
  | _ => none

end TokenKind

end LuaFront
