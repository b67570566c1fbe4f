import LuaFront.Proofs.Acceptance.Fronts
import LuaFront.Proofs.Tree.Listed

/-!
What it is for the parsers of a level to accept the grammar, and how lists are read. What a parser
reads is the whole word of its phrase; only an expression after an operator may stop at a weaker
operator, which is left to the parser of the operators before it.
-/

namespace LuaFront.Grammar

open Parse ParseState
open Phrase (Derives Suffixes Chain Stops binaryOps)

variable {α β : Type} {inner : Level} {depth power bound : Nat} {o o' calls : Bool} {p : Phrase}
  {k : TokenKind} {w v rest : List TokenKind} {pre : ParseState → Prop}
  {post : β → ParseState → Prop}

/-! ### Levels -/

/-- Nothing, or an operator and what comes after it. -/
inductive Links (isOpen : Bool) : List TokenKind → Prop
  | nil : Links isOpen []
  | cons {k : TokenKind} {w : List TokenKind} : k ∈ binaryOps → Chain isOpen w →
      Links isOpen (k :: w)

/-- If an operator is at the front, then it does not bind tighter than a power. -/
def Weak (power : Nat) (w : List TokenKind) : Prop :=
  ∀ op, (TokenKind.front w).binaryOp? = some op → op.leftPower ≤ power

/-- The rest of an expression was left, which does not bind tighter than a power. -/
def Left (depth power : Nat) (isOpen : Bool) (rest : List TokenKind) (s : ParseState) : Prop :=
  ∃ v, Links isOpen v ∧ Weak power v ∧ Ready depth (v ++ rest) s

/-- At a depth the parsers of a level accept what the grammar derives. -/
structure Level.Accepts (l : Level) (depth : Nat) : Prop where
  expr : ∀ {power o w rest}, Chain o w → Stops o rest →
    Proceeds (Ready depth (w ++ rest)) (l.expr power) fun _ => Left depth power o rest
  operators : ∀ {power first o w rest}, Links o w → Stops o rest →
    Proceeds (Ready depth (w ++ rest)) (l.operators power first) fun _ => Left depth power o rest
  suffixes : ∀ {calls f g w rest base}, Suffixes calls f g w → f.Of base →
    beginsSuffix calls (.front rest) = false →
    Proceeds (Ready depth (w ++ rest)) (l.suffixes calls base)
      fun e s => g.Of e ∧ Ready depth rest s
  block : ∀ {o w rest anchor}, Derives true .block o w → (TokenKind.front rest).endsBlock = true →
    Proceeds (Ready depth (w ++ rest)) (l.block anchor) fun _ => Ready depth rest

/-- No state is as deep as the bottom. -/
lemma Level.bottom_accepts : Level.bottom.Accepts (maxDepth + 1) := by
  have hnone : ∀ {w s}, ¬ Ready (maxDepth + 1) w s := by
    intro w s h
    have := h.limit
    have := h.depth_eq
    omega
  constructor <;> intros <;> exact fun s hs => absurd hs hnone

lemma proceeds_left {q : Parse β}
    (h : ∀ v, Links o v → Weak power v → Proceeds (Ready depth (v ++ rest)) q post) :
    Proceeds (Left depth power o rest) q post :=
  fun s ⟨v, hlinks, hweak, hs⟩ => h v hlinks hweak s hs

/-! ### Phrases -/

/-- Whatever comes after a phrase. -/
def Always (_ : Bool) (_ : List TokenKind) : Prop := True

/-- A parser accepts a phrase before certain words. -/
def Takes (before : Bool → List TokenKind → Prop) (depth : Nat) (p : Phrase) (item : Parse α)
    (facts : α → Prop) : Prop :=
  ∀ ⦃o w rest⦄, Derives true p o w → before o rest →
    Proceeds (Ready depth (w ++ rest)) item fun a s => facts a ∧ Ready depth rest s

variable {before : Bool → List TokenKind → Prop}

lemma Takes.step {item : Parse α} {facts : α → Prop} {f : α → Parse β} [∀ a, Steady (f a)]
    (h : Takes before depth p item facts) (hw : Derives true p o w) (hrest : before o rest)
    (hf : ∀ a, facts a → Proceeds (Ready depth rest) (f a) post) :
    Proceeds (Ready depth (w ++ rest)) (item >>= f) post :=
  (h hw hrest).bindFact hf

lemma proceeds_identifier {f : Identifier → Parse β}
    (h : ∀ id, Proceeds (Ready depth w) (f id) post) :
    Proceeds (Ready depth (.ident :: w)) (Grammar.identifier >>= f) post := by
  rw [Grammar.identifier, bind_assoc]
  exact Proceeds.expect (by decide) fun t => h ⟨t⟩

lemma identifier_takes : Takes Always depth .name identifier fun _ => True := by
  intro o w rest hw _
  cases hw
  exact Proceeds.expect (by decide) fun t => Proceeds.ret fun s hs => ⟨trivial, hs⟩

lemma Links.eq_nil (h : Links o v) (hweak : Weak 0 v) : v = [] := by
  cases h with
  | nil => rfl
  | cons hk =>
    obtain ⟨op, hop, hpos⟩ := Phrase.binaryOp?_of_mem hk
    exact absurd (hweak op hop) (by omega)

lemma Level.Accepts.expression (h : inner.Accepts depth) :
    Takes Stops depth .exp inner.expression fun _ => True := by
  intro o w rest hw hrest
  refine (h.expr hw.unrolled hrest).imp fun _ s ⟨v, hlinks, hweak, hs⟩ => ⟨trivial, ?_⟩
  rwa [hlinks.eq_nil hweak] at hs

lemma Level.Accepts.blockHere (h : inner.Accepts depth) {f : Block → Parse β}
    [∀ b, Parse.Steady (f b)] (hw : Derives true .block o w)
    (hrest : (TokenKind.front rest).endsBlock = true)
    (hf : ∀ b, Proceeds (Ready depth rest) (f b) post) :
    Proceeds (Ready depth (w ++ rest)) (inner.blockHere >>= f) post := by
  rw [Level.blockHere, bind_assoc]
  exact Proceeds.lastStop fun anchor => (h.block hw hrest).bind hf

/-! ### Lists -/

section Lists

variable {item : Parse α} {facts : α → Prop} [Steady item]

/-- Nothing, or a comma and more items. -/
inductive More (p : Phrase) (isOpen : Bool) : List TokenKind → Prop
  | nil : More p isOpen []
  | cons {w : List TokenKind} :
    Derives true (.list p) isOpen w → More p isOpen (.symbol .comma :: w)

lemma exists_first (h : Derives true (.list p) o w) :
    ∃ o' w' v, w = w' ++ v ∧ Derives true p o' w' ∧ More p o v ∧ (v = [] → o' = o) := by
  cases h with
  | one hw => exact ⟨_, _, [], by simp, hw, .nil, fun _ => rfl⟩
  | more hw hv => exact ⟨_, _, _, rfl, hw, .cons hv, nofun⟩

lemma More.append (hv : More p o v) (ho : v = [] → o' = o)
    (hcomma : ∀ o v, before o (.symbol .comma :: v)) (hrest : before o rest) :
    before o' (v ++ rest) := by
  cases hv with
  | nil => exact ho rfl ▸ hrest
  | cons => exact hcomma _ _

lemma list_front (h : Derives true (.list .exp) o w) :
    ∃ k v, w = k :: v ∧ k.canBeginExpr = true := by
  obtain ⟨o', w', v, rfl, hfirst, -⟩ := exists_first h
  obtain ⟨k, w', rfl, hk⟩ := hfirst.unrolled.front
  exact ⟨k, _, rfl, hk⟩

variable (hitem : Takes before depth p item facts)
  (hcomma : ∀ o v, before o (.symbol .comma :: v))

include hitem hcomma

lemma moreItems_proceeds {list : Separated α} (hv : More p o v) (hbound : v.length ≤ bound)
    (hlist : ∀ a ∈ list.items, facts a) (hrest : before o rest)
    (hlast : TokenKind.front rest ≠ .symbol .comma) :
    Proceeds (Ready depth (v ++ rest)) (moreItems item bound list)
      fun l s => (∀ a ∈ l.items, facts a) ∧ Ready depth rest s := by
  induction bound generalizing list v with
  | zero =>
    obtain rfl := List.length_eq_zero_iff.1 (Nat.le_zero.1 hbound)
    exact Proceeds.ret fun s hs => ⟨hlist, hs⟩
  | succ bound ih =>
    cases hv with
    | nil => exact Proceeds.takeNone hlast (Proceeds.ret fun s hs => ⟨hlist, hs⟩)
    | cons hw =>
      obtain ⟨o', w', v, rfl, hfirst, hmore, ho⟩ := exists_first hw
      simp only [List.length_cons, List.length_append] at hbound
      rw [List.cons_append, List.append_assoc]
      refine Proceeds.take (by decide) fun comma => ?_
      refine hitem.step hfirst (hmore.append ho hcomma hrest) fun next hnext => ?_
      refine ih hmore (by omega) ?_
      simpa [or_imp, forall_and] using ⟨hlist, hnext⟩

lemma itemsAfter_proceeds {anchor : Offset} {first : α} (hv : More p o v) (hfirst : facts first)
    (hrest : before o rest) (hlast : TokenKind.front rest ≠ .symbol .comma) :
    Proceeds (Ready depth (v ++ rest)) (itemsAfter item anchor first)
      fun l s => (∀ a ∈ l.items, facts a) ∧ Ready depth rest s := by
  refine Proceeds.remaining (moreItems_proceeds hitem hcomma hv (by simp) ?_ hrest hlast)
  rw [Separated.items_push]
  simpa [Separated.items, Separated.empty] using hfirst

lemma commaList_proceeds (hw : Derives true (.list p) o w) (hrest : before o rest)
    (hlast : TokenKind.front rest ≠ .symbol .comma) :
    Proceeds (Ready depth (w ++ rest)) (commaList item)
      fun l s => (∀ a ∈ l.items, facts a) ∧ Ready depth rest s := by
  obtain ⟨o', w', v, rfl, hfirst, hmore, ho⟩ := exists_first hw
  rw [List.append_assoc]
  refine Proceeds.lastStop fun anchor => ?_
  refine hitem.step hfirst (hmore.append ho hcomma hrest) fun first hfacts => ?_
  exact itemsAfter_proceeds hitem hcomma hmore hfacts hrest hlast

end Lists

end LuaFront.Grammar
