import LuaFront.Proofs.Lexeme.Legible
import LuaFront.Proofs.Parser.Bases
import LuaFront.Proofs.Tree.Bare
import LuaFront.Proofs.Tree.Form

/-!
What a normal form keeps of an expression. Erased, an expression has no parentheses but those of
calls, which are around all arguments, and no delimiters, places and trivia. The words of an
expression are the tokens of its normal form.
-/

namespace LuaFront

open Displacement (forget)

/-- A token as such, without its place and trivia. -/
def Token.bare (t : Token) : Token := forget.token t

def Token.sign (sign : Symbol) : Token := ⟨.symbol sign, sign.spelling, .empty 0, []⟩

/-! ### Erased expressions -/

mutual

/-- Functions are left as they are. -/
def Expr.erased : Expr → Expr
  | .literal lit => .literal (forget.literal lit)
  | .vararg dots => .vararg (forget.vararg dots)
  | .name id => .name (forget.identifier id)
  | .function keyword body => .function keyword body
  | .table t => .table t.erased
  | .paren _ inner _ => inner.erased
  | .field base dot name => .field base.erased dot.bare (forget.identifier name)
  | .index base opening key closing => .index base.erased opening.bare key.erased closing.bare
  | .call callee args => .call callee.erased args.erased
  | .methodCall receiver colon name args =>
    .methodCall receiver.erased colon.bare (forget.identifier name) args.erased
  | .unary op sign operand => .unary op sign.bare operand.erased
  | .binary lhs op sign rhs => .binary lhs.erased op sign.bare rhs.erased
  | .invalid kept skipped anchor => .invalid kept skipped anchor

def Expr.erasedPairs : List (Pair Expr) → List (Pair Expr)
  | [] => []
  | ⟨e, _⟩ :: more => ⟨e.erased, none⟩ :: Expr.erasedPairs more

/-- A string or a table by itself is put in parentheses. -/
def CallArgs.erased : CallArgs → CallArgs
  | .paren _ ⟨args, _⟩ _ =>
    .paren (.sign .openParen) ⟨Expr.erasedPairs args, 0⟩ (.sign .closeParen)
  | .table t => .paren (.sign .openParen) ⟨[⟨.table t.erased, none⟩], 0⟩ (.sign .closeParen)
  | .string lit =>
    .paren (.sign .openParen) ⟨[⟨.literal (forget.literal lit), none⟩], 0⟩ (.sign .closeParen)

def Table.erased : Table → Table
  | ⟨opening, ⟨fields, _⟩, closing⟩ =>
    ⟨opening.bare, ⟨TableField.erasedPairs fields, 0⟩, closing.bare⟩

def TableField.erasedPairs : List (Pair TableField) → List (Pair TableField)
  | [] => []
  | ⟨f, _⟩ :: more => ⟨f.erased, none⟩ :: TableField.erasedPairs more

def TableField.erased : TableField → TableField
  | .positional value => .positional value.erased
  | .named name eq value => .named (forget.identifier name) eq.bare value.erased
  | .keyed opening key closing eq value =>
    .keyed opening.bare key.erased closing.bare eq.bare value.erased

end

/-! ### Words -/

/-- Words with commas between them. -/
def Token.commas : List (List Token) → List Token
  | [] => []
  | w :: ws => w ++ ws.flatMap (.sign .comma :: ·)

mutual

def Expr.words : Expr → List Token
  | .literal lit => [lit.token.bare]
  | .vararg dots => [dots.token.bare]
  | .name id => [id.token.bare]
  | .table t => t.words
  | .paren _ inner _ => .sign .openParen :: (inner.words ++ [.sign .closeParen])
  | .field base _ name => base.words ++ [.sign .dot, name.token.bare]
  | .index base _ key _ => base.words ++ .sign .openBracket :: (key.words ++ [.sign .closeBracket])
  | .call callee args => callee.words ++ args.words
  | .methodCall receiver _ name args =>
    receiver.words ++ .sign .colon :: name.token.bare :: args.words
  | .unary _ sign operand =>
    .sign .openParen :: sign.bare :: (operand.words ++ [.sign .closeParen])
  | .binary lhs _ sign rhs =>
    .sign .openParen :: (lhs.words ++ sign.bare :: (rhs.words ++ [.sign .closeParen]))
  | .function _ _ | .invalid _ _ _ => []

def Expr.wordLists : List (Pair Expr) → List (List Token)
  | [] => []
  | ⟨e, _⟩ :: more => e.words :: Expr.wordLists more

def CallArgs.words : CallArgs → List Token
  | .paren _ ⟨args, _⟩ _ =>
    .sign .openParen :: (Token.commas (Expr.wordLists args) ++ [.sign .closeParen])
  | .table t => .sign .openParen :: (t.words ++ [.sign .closeParen])
  | .string lit => [.sign .openParen, lit.token.bare, .sign .closeParen]

def Table.words : Table → List Token
  | ⟨_, ⟨fields, _⟩, _⟩ =>
    .sign .openBrace :: (Token.commas (TableField.wordLists fields) ++ [.sign .closeBrace])

def TableField.wordLists : List (Pair TableField) → List (List Token)
  | [] => []
  | ⟨f, _⟩ :: more => f.words :: TableField.wordLists more

def TableField.words : TableField → List Token
  | .positional value => value.words
  | .named name _ value => name.token.bare :: .sign .eq :: value.words
  | .keyed _ key _ _ value =>
    .sign .openBracket :: (key.words ++ .sign .closeBracket :: .sign .eq :: value.words)

end

/-! ### What is written -/

/-- A name as it stands in a text. -/
structure Identifier.Written (id : Identifier) : Prop where
  kind : id.token.kind = .ident
  legible : id.token.Legible

structure Literal.Written (lit : Literal) : Prop where
  form : lit.Form
  legible : lit.token.Legible

mutual

/-- The expression is made of tokens as they stand in a text, each in its place. It has no functions
in it, and no strings in long brackets. -/
def Expr.Written : Expr → Prop
  | .literal lit => lit.Written
  | .vararg dots => dots.token.bare = .sign .dotDotDot
  | .name id => id.Written
  | .table t => t.Written
  | .paren _ inner _ => inner.Written
  | .field base dot name =>
    (base.isPrefix = true ∧ base.Written) ∧ dot.bare = .sign .dot ∧ name.Written
  | .index base opening key closing =>
    (base.isPrefix = true ∧ base.Written) ∧ opening.bare = .sign .openBracket ∧ key.Written
      ∧ closing.bare = .sign .closeBracket
  | .call callee args => (callee.isPrefix = true ∧ callee.Written) ∧ args.Written
  | .methodCall receiver colon name args =>
    (receiver.isPrefix = true ∧ receiver.Written) ∧ colon.bare = .sign .colon ∧ name.Written
      ∧ args.Written
  | .unary op sign operand => sign.kind.unaryOp? = some op ∧ sign.Legible ∧ operand.Written
  | .binary lhs op sign rhs =>
    lhs.Written ∧ (sign.kind.binaryOp? = some op ∧ sign.Legible) ∧ rhs.Written
  | .function _ _ | .invalid _ _ _ => False

def Expr.PairsWritten : List (Pair Expr) → Prop
  | [] => True
  | ⟨e, _⟩ :: more => e.Written ∧ Expr.PairsWritten more

def CallArgs.Written : CallArgs → Prop
  | .paren _ ⟨args, _⟩ _ => Expr.PairsWritten args
  | .table t => t.Written
  | .string lit => lit.Written

def Table.Written : Table → Prop
  | ⟨opening, ⟨fields, _⟩, closing⟩ =>
    opening.bare = .sign .openBrace ∧ TableField.PairsWritten fields
      ∧ closing.bare = .sign .closeBrace

def TableField.PairsWritten : List (Pair TableField) → Prop
  | [] => True
  | ⟨f, _⟩ :: more => f.Written ∧ TableField.PairsWritten more

def TableField.Written : TableField → Prop
  | .positional value => value.Written
  | .named name eq value => name.Written ∧ eq.bare = .sign .eq ∧ value.Written
  | .keyed opening key closing eq value =>
    opening.bare = .sign .openBracket ∧ key.Written ∧ closing.bare = .sign .closeBracket
      ∧ eq.bare = .sign .eq ∧ value.Written

end

/-! ### Lists -/

namespace Separated

variable {α β : Type}

/-- A list without delimiters. -/
def plain (items : List α) : Separated α := ⟨items.map (⟨·, none⟩), 0⟩

/-- What is made of pairs one by one, without the delimiters, is made of the items. -/
lemma map_items {f : List (Pair α) → List β} {g : α → β} (hnil : f [] = [])
    (hcons : ∀ pair pairs, f (pair :: pairs) = g pair.item :: f pairs) (l : Separated α) :
    f l.pairs = l.items.map g := by
  obtain ⟨pairs, anchor⟩ := l
  simp only [items]
  induction pairs with
  | nil => exact hnil
  | cons pair pairs ih => rw [hcons, ih, List.map_cons, List.map_cons]

lemma forall_items {P : List (Pair α) → Prop} {Q : α → Prop} (hnil : P [])
    (hcons : ∀ pair pairs, P (pair :: pairs) ↔ Q pair.item ∧ P pairs) (l : Separated α) :
    P l.pairs ↔ ∀ a ∈ l.items, Q a := by
  obtain ⟨pairs, anchor⟩ := l
  simp only [items]
  induction pairs with
  | nil => simp [hnil]
  | cons pair pairs ih => rw [hcons, ih, List.map_cons, List.forall_mem_cons]

end Separated

namespace Expr

lemma erasedPairs_eq (l : Separated Expr) :
    (⟨erasedPairs l.pairs, 0⟩ : Separated Expr) = .plain (l.items.map erased) := by
  rw [Separated.plain, List.map_map]
  exact congrArg (Separated.mk · 0) (l.map_items rfl fun _ _ => rfl)

lemma wordLists_eq (l : Separated Expr) : wordLists l.pairs = l.items.map words :=
  l.map_items rfl fun _ _ => rfl

lemma pairsWritten_iff (l : Separated Expr) : PairsWritten l.pairs ↔ ∀ e ∈ l.items, e.Written :=
  l.forall_items trivial fun _ _ => Iff.rfl

end Expr

namespace TableField

lemma erasedPairs_eq (l : Separated TableField) :
    (⟨erasedPairs l.pairs, 0⟩ : Separated TableField) = .plain (l.items.map erased) := by
  rw [Separated.plain, List.map_map]
  exact congrArg (Separated.mk · 0) (l.map_items rfl fun _ _ => rfl)

lemma wordLists_eq (l : Separated TableField) : wordLists l.pairs = l.items.map words :=
  l.map_items rfl fun _ _ => rfl

lemma pairsWritten_iff (l : Separated TableField) :
    PairsWritten l.pairs ↔ ∀ f ∈ l.items, f.Written :=
  l.forall_items trivial fun _ _ => Iff.rfl

end TableField

namespace CallArgs

/-- What the arguments are, with parentheses or without. -/
def exprs : CallArgs → List Expr
  | paren _ args _ => args.items
  | table t => [.table t]
  | string lit => [.literal lit]

lemma erased_eq (a : CallArgs) : a.erased
    = .paren (.sign .openParen) (.plain (a.exprs.map Expr.erased)) (.sign .closeParen) := by
  cases a with
  | paren opening args closing => rw [exprs, ← Expr.erasedPairs_eq]; rfl
  | table | string => rfl

lemma words_eq (a : CallArgs) : a.words
    = .sign .openParen :: (Token.commas (a.exprs.map Expr.words) ++ [Token.sign .closeParen]) := by
  cases a with
  | paren opening args closing => rw [exprs, ← Expr.wordLists_eq]; rfl
  | table t => simp [words, exprs, Token.commas, Expr.words]
  | string lit => rfl

lemma written_iff (a : CallArgs) : a.Written ↔ ∀ e ∈ a.exprs, e.Written := by
  cases a with
  | paren opening args closing => exact Expr.pairsWritten_iff args
  | table t | string => simp [Written, exprs, Expr.Written]

end CallArgs

namespace Table

lemma erased_eq (t : Table) :
    t.erased = ⟨t.opening.bare, .plain (t.fields.items.map TableField.erased), t.closing.bare⟩ := by
  obtain ⟨opening, ⟨fields, anchor⟩, closing⟩ := t
  rw [← TableField.erasedPairs_eq]
  rfl

lemma words_eq (t : Table) : t.words = .sign .openBrace
    :: (Token.commas (t.fields.items.map TableField.words) ++ [Token.sign .closeBrace]) := by
  obtain ⟨opening, ⟨fields, anchor⟩, closing⟩ := t
  rw [← TableField.wordLists_eq]
  rfl

lemma written_iff (t : Table) : t.Written ↔ t.opening.bare = .sign .openBrace
    ∧ (∀ f ∈ t.fields.items, f.Written) ∧ t.closing.bare = .sign .closeBrace := by
  obtain ⟨opening, ⟨fields, anchor⟩, closing⟩ := t
  rw [← TableField.pairsWritten_iff]
  rfl

end Table

end LuaFront
