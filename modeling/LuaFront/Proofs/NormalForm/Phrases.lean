import LuaFront.Proofs.Acceptance.Fronts
import LuaFront.Proofs.NormalForm.Holding

/-!
The words of an expression as a parser takes them apart: what stands before the suffixes and the
suffixes one after the other, an operation within its parentheses, and the second half of one after
its operator. The first word tells the forms apart.
-/

namespace LuaFront

open Grammar (beginsSuffix)

namespace Expr

/-- The words of an expression, or an operation without its parentheses. A binary operator stands
only where operators of any power are read. -/
inductive Line : (power : Nat) → Expr → List Token → Prop
  | whole {power : Nat} {e : Expr} : Line power e e.words
  | unary {power : Nat} {op : UnaryOp} {sign : Token} {operand : Expr} :
    Line power (.unary op sign operand) (sign.bare :: operand.words)
  | binary {lhs : Expr} {op : BinaryOp} {sign : Token} {rhs : Expr} :
    Line 0 (.binary lhs op sign rhs) (lhs.words ++ sign.bare :: rhs.words)

/-- Nothing, or an operator and its right operand, and what that makes of the left one. -/
inductive Tail : (power : Nat) → Expr → Expr → List Token → Prop
  | nil {power : Nat} {e : Expr} : Tail power e e []
  | cons {lhs : Expr} {op : BinaryOp} {sign : Token} {rhs : Expr} :
    (Expr.binary lhs op sign rhs).Written →
    Tail 0 lhs (.binary lhs op sign rhs) (sign.bare :: rhs.words)

/-- What stands before suffixes. -/
inductive Head : Expr → List Token → Prop
  | name {id : Identifier} : id.Written → Head (.name id) [id.token.bare]
  | paren {p e : Expr} {w : List Token} : e.Written → Line 0 e w → p.erased = e.erased →
    Head p (.sign .openParen :: (w ++ [.sign .closeParen]))

/-- A suffix, and what it makes of the expression before it. -/
inductive Suffix (base : Expr) : Expr → List Token → Prop
  | field {dot : Token} {name : Identifier} : dot.bare = .sign .dot → name.Written →
    Suffix base (.field base dot name) [.sign .dot, name.token.bare]
  | index {opening : Token} {key : Expr} {closing : Token} :
    opening.bare = .sign .openBracket → key.Written → closing.bare = .sign .closeBracket →
    Suffix base (.index base opening key closing)
      (.sign .openBracket :: (key.words ++ [.sign .closeBracket]))
  | call {args : CallArgs} : args.Written → Suffix base (.call base args) args.words
  | method {colon : Token} {name : Identifier} {args : CallArgs} :
    colon.bare = .sign .colon → name.Written → args.Written →
    Suffix base (.methodCall base colon name args) (.sign .colon :: name.token.bare :: args.words)

/-- Suffixes one after the other. -/
inductive Suffixes : Expr → Expr → List Token → Prop
  | nil {e : Expr} : Suffixes e e []
  | cons {a b c : Expr} {w v : List Token} :
    Suffix a b w → Suffixes b c v → Suffixes a c (w ++ v)

variable {a b c e : Expr} {w v rest : List Token}

lemma Suffixes.snoc (h : Suffixes a b w) (hc : Suffix b c v) : Suffixes a c (w ++ v) := by
  induction h with
  | nil => simpa using Suffixes.cons hc .nil
  | cons hfirst _ ih => simpa using Suffixes.cons hfirst (ih hc)

/-- **Words from the left**: first what stands before the suffixes, then these. -/
theorem exists_suffixes : ∀ {e : Expr}, e.Written → (e.isPrefix || e.isOperation) = true →
    ∃ p v w, Head p v ∧ Suffixes p e w ∧ e.words = v ++ w
  | .name _, h, _ => ⟨_, _, [], .name h, .nil, rfl⟩
  | .paren opening inner closing, h, _ => by
    have hinner : inner.Written := h
    have hhead := Head.paren (p := .paren opening inner closing) hinner .whole rfl
    exact ⟨_, _, [], hhead, .nil, by rw [words, List.append_nil]⟩
  | .unary _ _ _, h, _ => ⟨_, _, [], .paren h .unary rfl, .nil, by simp [words]⟩
  | .binary _ _ _ _, h, _ => ⟨_, _, [], .paren h .binary rfl, .nil, by simp [words]⟩
  | .field base _ _, h, _ => by
    obtain ⟨⟨hopen, hbase⟩, hdot, hname⟩ := h
    obtain ⟨p, v, w, hp, hw, hwords⟩ := exists_suffixes hbase (by rw [hopen]; rfl)
    exact ⟨p, v, _, hp, hw.snoc (.field hdot hname), by simp [words, hwords]⟩
  | .index base _ _ _, h, _ => by
    obtain ⟨⟨hopen, hbase⟩, hopening, hkey, hclosing⟩ := h
    obtain ⟨p, v, w, hp, hw, hwords⟩ := exists_suffixes hbase (by rw [hopen]; rfl)
    exact ⟨p, v, _, hp, hw.snoc (.index hopening hkey hclosing), by simp [words, hwords]⟩
  | .call base _, h, _ => by
    obtain ⟨⟨hopen, hbase⟩, hargs⟩ := h
    obtain ⟨p, v, w, hp, hw, hwords⟩ := exists_suffixes hbase (by rw [hopen]; rfl)
    exact ⟨p, v, _, hp, hw.snoc (.call hargs), by simp [words, hwords]⟩
  | .methodCall base _ _ _, h, _ => by
    obtain ⟨⟨hopen, hbase⟩, hcolon, hname, hargs⟩ := h
    obtain ⟨p, v, w, hp, hw, hwords⟩ := exists_suffixes hbase (by rw [hopen]; rfl)
    exact ⟨p, v, _, hp, hw.snoc (.method hcolon hname hargs), by simp [words, hwords]⟩
  | .literal _, _, h | .vararg _, _, h | .table _, _, h | .function _ _, _, h =>
    absurd h Bool.false_ne_true
  | .invalid _ _ _, h, _ => False.elim h

/-! ### First tokens -/

lemma Suffix.front (h : Suffix a b w) : ∃ t v, w = t :: v ∧ beginsSuffix true t.kind = true := by
  cases h with
  | field | index | method => exact ⟨_, _, rfl, rfl⟩
  | @call args hargs => exact ⟨_, _, args.words_eq, rfl⟩

/-- How an expression begins; if that is a name, no equals sign comes after it. -/
structure Front (t : Token) (v : List Token) : Prop where
  begins : t.kind.canBeginExpr = true
  operand : t.kind.unaryOp? = none
  second : t.kind = .ident → ∀ rest : List Token,
    TokenKind.front (rest.map (·.kind)) ≠ .symbol .eq →
    TokenKind.front ((v ++ rest).map (·.kind)) ≠ .symbol .eq

lemma Written.front (h : e.Written) : ∃ t v, e.words = t :: v ∧ Front t v := by
  by_cases hform : (e.isPrefix || e.isOperation) = true
  · obtain ⟨p, v, w, hp, hw, hwords⟩ := exists_suffixes h hform
    rw [hwords]
    cases hp with
    | paren => exact ⟨_, _, rfl, rfl, rfl, nofun⟩
    | @name id hid =>
      have hkind : id.token.bare.kind = .ident := hid.kind
      refine ⟨_, _, rfl, by rw [hkind]; rfl, by rw [hkind]; rfl, fun _ rest hrest => ?_⟩
      cases hw with
      | nil => exact hrest
      | cons hfirst =>
        obtain ⟨t, u, rfl, ht⟩ := hfirst.front
        intro heq
        have heq : t.kind = .symbol .eq := heq
        rw [heq] at ht
        cases ht
  · cases e with
    | literal lit =>
      have hkind : lit.token.bare.kind = lit.kind.token := h.form
      refine ⟨_, _, rfl, ?_, ?_, ?_⟩ <;> rw [hkind] <;> cases lit.kind <;> first | rfl | nofun
    | vararg dots =>
      have hdots : dots.token.bare = .sign .dotDotDot := h
      exact ⟨_, _, congrArg (List.cons · []) hdots, rfl, rfl, nofun⟩
    | table t => exact ⟨_, _, t.words_eq, rfl, rfl, nofun⟩
    | function | invalid => exact h.elim
    | _ => exact absurd rfl hform

end Expr

end LuaFront
