import LuaFront.Proofs.Tree.Listed
import LuaFront.Proofs.Tree.Marks

/-!
What trees look like. Every tree of the parser has a form: each token stands where its kind
belongs, missing ones too, and the items of a list have delimiters between them. A tree is complete
when recovery left nothing in it either: no missing token, no invalid node, and nothing that the
grammar of statements refuses.
-/

namespace LuaFront

/-! ### Forms -/

/-- The token of a literal of a kind. -/
def LiteralKind.token : LiteralKind → TokenKind
  | nil_ => .keyword .nil_
  | true_ => .keyword .true_
  | false_ => .keyword .false_
  | number => .number
  | string => .string

def Literal.Form (lit : Literal) : Prop := lit.token.kind = lit.kind.token

def Param.isVararg : Param → Bool
  | vararg _ => true
  | name _ => false

def CallArgs.Form : CallArgs → Prop
  | paren opening args closing =>
    opening.kind = .symbol .openParen ∧ args.Commas ∧ closing.kind = .symbol .closeParen
  | table _ => True
  | string lit => lit.kind = .string

def Expr.Form : Expr → Prop
  | literal lit => lit.Form
  | vararg dots => dots.token.kind = .symbol .dotDotDot
  | name id => id.token.kind = .ident
  | function keyword _ => keyword.kind = .keyword .function_
  | table _ => True
  | paren opening _ closing =>
    opening.kind = .symbol .openParen ∧ closing.kind = .symbol .closeParen
  | field _ dot _ => dot.kind = .symbol .dot
  | index _ opening _ closing =>
    opening.kind = .symbol .openBracket ∧ closing.kind = .symbol .closeBracket
  | call _ args => args.Form
  | methodCall _ colon _ args => colon.kind = .symbol .colon ∧ args.Form
  | unary op sign _ => sign.kind.unaryOp? = some op
  | binary _ op sign _ => sign.kind.binaryOp? = some op
  | invalid _ _ _ => True

def TableField.Form : TableField → Prop
  | positional _ => True
  | named _ eq _ => eq.kind = .symbol .eq
  | keyed opening _ closing eq _ =>
    opening.kind = .symbol .openBracket ∧ closing.kind = .symbol .closeBracket
      ∧ eq.kind = .symbol .eq

structure Table.Form (t : Table) : Prop where
  opening : t.opening.kind = .symbol .openBrace
  fields : t.fields.Joined fun kind => kind = .symbol .comma ∨ kind = .symbol .semi
  closing : t.closing.kind = .symbol .closeBrace

structure FuncBody.Form (f : FuncBody) : Prop where
  opening : f.opening.kind = .symbol .openParen
  params : f.params.Joined (· = .symbol .comma)
  vararg : ∀ p ∈ f.params.items.dropLast, p.isVararg = false
  closing : f.closing.kind = .symbol .closeParen
  close : f.close.kind = .keyword .end_

structure IfStat.Form (s : IfStat) : Prop where
  keyword : s.keyword.kind = .keyword .if_
  opener : s.opener.kind = .keyword .then_
  close : s.close.kind = .keyword .end_

structure NumericFor.Form (s : NumericFor) : Prop where
  keyword : s.keyword.kind = .keyword .for_
  eq : s.eq.kind = .symbol .eq
  comma : s.comma.kind = .symbol .comma
  step : ∀ step ∈ s.step, step.comma.kind = .symbol .comma
  opener : s.opener.kind = .keyword .do_
  close : s.close.kind = .keyword .end_

structure GenericFor.Form (s : GenericFor) : Prop where
  keyword : s.keyword.kind = .keyword .for_
  names : s.names.Listed
  in_ : s.in_.kind = .keyword .in_
  exprs : s.exprs.Listed
  opener : s.opener.kind = .keyword .do_
  close : s.close.kind = .keyword .end_

def Stat.Form : Stat → Prop
  | empty semi => semi.kind = .symbol .semi
  | assign targets eq values => targets.Listed ∧ eq.kind = .symbol .eq ∧ values.Listed
  | call e => e.isCall
  | do_ keyword _ close => keyword.kind = .keyword .do_ ∧ close.kind = .keyword .end_
  | while_ keyword _ opener _ close =>
    keyword.kind = .keyword .while_ ∧ opener.kind = .keyword .do_ ∧ close.kind = .keyword .end_
  | repeat_ keyword _ close _ =>
    keyword.kind = .keyword .repeat_ ∧ close.kind = .keyword .until_
  | if_ s => s.Form
  | numericFor s => s.Form
  | genericFor s => s.Form
  | function keyword _ method _ =>
    keyword.kind = .keyword .function_ ∧ ∀ m ∈ method, m.colon.kind = .symbol .colon
  | localFunction keyword second _ _ =>
    keyword.kind = .keyword .local_ ∧ second.kind = .keyword .function_
  | local_ keyword names eq values =>
    keyword.kind = .keyword .local_ ∧ names.Listed ∧ (∀ t ∈ eq, t.kind = .symbol .eq)
      ∧ values.Commas
  | return_ keyword values semi =>
    keyword.kind = .keyword .return_ ∧ values.Commas ∧ ∀ t ∈ semi, t.kind = .symbol .semi
  | break_ keyword => keyword.kind = .keyword .break_
  | goto_ keyword _ => keyword.kind = .keyword .goto_
  | label opening _ closing =>
    opening.kind = .symbol .colonColon ∧ closing.kind = .symbol .colonColon
  | invalid _ _ _ => True

/-- The tokens of a node stand where their kinds belong, and its lists are joined. -/
def Node.Form : Node → Prop
  | block _ => True
  | stat s => s.Form
  | elseIf c => c.keyword.kind = .keyword .elseif_ ∧ c.opener.kind = .keyword .then_
  | else_ c => c.keyword.kind = .keyword .else_
  | funcBody f => f.Form
  | tableField f => f.Form
  | table t => t.Form
  | expr e => e.Form
  | identifier id => id.token.kind = .ident
  | literal lit => lit.Form
  | vararg dots => dots.token.kind = .symbol .dotDotDot

/-! ### Completeness -/

/-- A name, or fields of one. -/
def Expr.IsDotted : Expr → Prop
  | name _ => True
  | field base _ _ => base.IsDotted
  | _ => False

/-- What the grammar asks of a node beyond the form of its parts. -/
def Node.Sound : Node → Prop
  | block b => ∀ s ∈ b.stats.dropLast, s.isReturn = false
  | stat (.assign targets _ _) => ∀ e ∈ targets.items, e.isAssignable
  | stat (.function _ name _ _) => name.IsDotted
  | stat (.invalid _ _ _) => False
  | expr (.invalid _ _ _) => False
  | funcBody f => f.params.endsDelimited = false
  | _ => True

/-- Nothing is missing from a node, and nothing in it was skipped. -/
structure Node.Complete (n : Node) : Prop where
  form : n.Form
  sound : n.Sound
  present : ∀ t, .token t ∈ n.parts → t.isMissing = false

lemma Node.present_of_complete {n : Node} (h : n.All Node.Complete) {t : Token}
    (ht : t ∈ n.tokens) : t.isMissing = false := by
  induction n using Node.induction with
  | step n ih =>
    rw [tokens_eq, List.mem_flatMap] at ht
    obtain ⟨p, hp, ht⟩ := ht
    obtain ⟨hn, hchildren⟩ := all_iff.1 h
    cases p with
    | token u =>
      rw [List.mem_singleton.1 ht]
      exact hn.present u hp
    | node m => exact ih m (mem_children.2 hp) (hchildren m (mem_children.2 hp)) ht

end LuaFront
