import LuaFront.Grammar.Statement
import LuaFront.Proofs.Acceptance.Phrases

/-!
Expressions as chains. The grammar puts an expression together from the left; a parser takes an
operand and goes on as long as operators or suffixes come. Here each derivation of an expression is
put into the second form, without regard to how tightly the operators bind.
-/

namespace LuaFront

/-- The kind at the front of a word, or the end of input. -/
def TokenKind.front (w : List TokenKind) : TokenKind := w.head?.getD .eof

namespace Phrase

open Grammar

/-- What can be done with an expression that ends in a suffix or a name. -/
inductive Form where
  /-- It is a name, or fields of one. -/
  | dotted
  | assignable
  | call
  | other

/-- An expression of a form. -/
def Form.Of : Form → Expr → Prop
  | dotted, e => firstNonName? e = none
  | assignable, e => e.isAssignable = true
  | call, e => e.isCall = true
  | other, _ => True

/-- A suffix, and what it makes of the form before it. Calls are among the suffixes only where they
are allowed. -/
inductive Suffix : (calls : Bool) → Form → Form → List TokenKind → Prop
  | dot {calls} : Suffix calls .dotted .dotted [.symbol .dot, .ident]
  | field {calls f} : Suffix calls f .assignable [.symbol .dot, .ident]
  | index {calls f o v} :
    Derives true exp o v →
    Suffix calls f .assignable (.symbol .openBracket :: (v ++ [.symbol .closeBracket]))
  | call {f o v} : Derives true args o v → Suffix true f .call v
  | method {f o v} : Derives true args o v → Suffix true f .call (.symbol .colon :: .ident :: v)

/-- Suffixes one after the other. -/
inductive Suffixes (calls : Bool) : Form → Form → List TokenKind → Prop
  | nil {f} : Suffixes calls f f []
  | cons {f g h w v} : Suffix calls f g w → Suffixes calls g h v → Suffixes calls f h (w ++ v)

/-- What stands before the suffixes. -/
inductive Primary : Form → List TokenKind → Prop
  | name : Primary .dotted [.ident]
  | paren {o w} : Derives true exp o w →
    Primary .other (.symbol .openParen :: (w ++ [.symbol .closeParen]))

/-- A prefix expression, from the left. -/
inductive Suffixed (calls : Bool) (g : Form) : List TokenKind → Prop
  | mk {f w v} : Primary f w → Suffixes calls f g v → Suffixed calls g (w ++ v)

/-- An operand without unary operators. -/
inductive Simple : (isOpen : Bool) → List TokenKind → Prop
  | literal {k} : k ∈ literals → Simple false [k]
  | function {o w} : Derives true funcBody o w → Simple false (.keyword .function_ :: w)
  | table {o w} : Derives true table o w → Simple false w
  | suffixed {f w} : Suffixed true f w → Simple true w

/-- Operands with operators between them. -/
inductive Chain : (isOpen : Bool) → List TokenKind → Prop
  | simple {o w} : Simple o w → Chain o w
  | unary {k o w} : k ∈ unaryOps → Chain o w → Chain o (k :: w)
  | binary {o w k o' v} : Simple o w → k ∈ binaryOps → Chain o' v → Chain o' (w ++ k :: v)

variable {o : Bool} {w v : List TokenKind}

lemma Suffixes.snoc {calls : Bool} {f g h : Form} (hw : Suffixes calls f g w)
    (hv : Suffix calls g h v) : Suffixes calls f h (w ++ v) := by
  induction hw with
  | nil => simpa using Suffixes.cons hv .nil
  | cons hfirst _ ih => simpa using Suffixes.cons hfirst (ih hv)

lemma Suffixed.snoc {calls : Bool} {g h : Form} (hw : Suffixed calls g w)
    (hv : Suffix calls g h v) : Suffixed calls h (w ++ v) := by
  obtain ⟨hprimary, hsuffixes⟩ := hw
  rw [List.append_assoc]
  exact .mk hprimary (hsuffixes.snoc hv)

lemma Chain.join {k : TokenKind} {o' : Bool} (hw : Chain o w) (hk : k ∈ binaryOps)
    (hv : Chain o' v) : Chain o' (w ++ k :: v) := by
  induction hw with
  | simple hw => exact .binary hw hk hv
  | unary hop _ ih => exact .unary hop ih
  | binary hw hop _ ih => simpa using Chain.binary hw hop ih

/-- The other form of what is derived from the left. -/
def Unrolled : Phrase → (isOpen : Bool) → List TokenKind → Prop
  | exp, o, w => Chain o w
  | prefixExp, o, w => o = true ∧ ∃ f, Suffixed true f w
  | var, o, w => o = true ∧ ∃ f, Suffixed true f w ∧ ∀ e, f.Of e → e.isAssignable = true
  | call, o, w => o = true ∧ Suffixed true .call w
  | dotted, _, w => ∃ v, w = .ident :: v ∧ Suffixes false .dotted .dotted v
  | _, _, _ => True

lemma isAssignable_of_dotted {e : Expr} (h : Form.dotted.Of e) : e.isAssignable = true := by
  cases e <;> first | rfl | simp [Form.Of, firstNonName?] at h

/-- **Every derivation can be unrolled.** -/
theorem Derives.unrolled {p : Phrase} (h : Derives true p o w) : Unrolled p o w := by
  induction h with
  | literal hk => exact .simple (.literal hk)
  | function hbody => exact .simple (.function hbody)
  | tableExp htable => exact .simple (.table htable)
  | prefixed _ ih =>
    obtain ⟨-, f, hw⟩ := ih
    exact .simple (.suffixed hw)
  | binary _ hk _ ihw ihv => exact Chain.join ihw hk ihv
  | unary hk _ ih => exact .unary hk ih
  | ofVar _ ih =>
    obtain ⟨-, f, hw, -⟩ := ih
    exact ⟨rfl, f, hw⟩
  | ofCall _ ih => exact ⟨rfl, _, ih.2⟩
  | paren hexp =>
    refine ⟨rfl, .other, ?_⟩
    simpa using Suffixed.mk (.paren hexp) .nil
  | varName =>
    refine ⟨rfl, .dotted, ?_, fun e => isAssignable_of_dotted⟩
    simpa using Suffixed.mk .name .nil
  | varField _ ih =>
    obtain ⟨-, f, hw⟩ := ih
    exact ⟨rfl, .assignable, hw.snoc .field, fun e => id⟩
  | varIndex _ hkey ih =>
    obtain ⟨-, f, hw⟩ := ih
    exact ⟨rfl, .assignable, hw.snoc (.index hkey), fun e => id⟩
  | callOf _ hargs ih =>
    obtain ⟨-, f, hw⟩ := ih
    exact ⟨rfl, hw.snoc (.call hargs)⟩
  | callMethod _ hargs ih =>
    obtain ⟨-, f, hw⟩ := ih
    exact ⟨rfl, hw.snoc (.method hargs)⟩
  | dottedName => exact ⟨[], rfl, .nil⟩
  | dottedField _ ih =>
    obtain ⟨v, rfl, hv⟩ := ih
    exact ⟨_, rfl, .cons .dot hv⟩
  | _ => trivial

end Phrase

end LuaFront
