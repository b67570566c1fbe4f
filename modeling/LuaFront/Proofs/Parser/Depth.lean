import LuaFront.Proofs.Parser.Returns

/-!
How deep the trees are that the parsers of a level make, in terms of those of the level further
in. The state does not matter here: a level nests no deeper than the levels in it allow, and an
operator or a suffix puts one node around all that was read before it.
-/

namespace LuaFront

namespace Grammar

open Parse Node

variable {inner : Level} {depth k e b h bound : Nat}

/-! ### Expressions -/

/-- How deep the trees are that the parsers of a level make: expressions `e` and blocks `b` levels
at most. With `k` levels further in, that many operators or suffixes can come after an operand. -/
structure Level.Flat (l : Level) (k e b : Nat) : Prop where
  expr : ∀ {depth : Nat} {power}, Returns depth (l.expr power) fun a => (ofExpr a).Shallow e
  operators : ∀ {depth : Nat} {power first h}, (ofExpr first).Shallow h →
    Returns depth (l.operators power first) fun a => (ofExpr a).Shallow (max h e + k)
  suffixes : ∀ {depth : Nat} {calls base h}, (ofExpr base).Shallow h →
    Returns depth (l.suffixes calls base) fun a => (ofExpr a).Shallow (max h (e + 1) + k)
  block : ∀ {depth : Nat} {anchor}, Returns depth (l.block anchor) fun a => (Node.block a).Shallow b
  expr_pos : 0 < e
  block_pos : 0 < b

lemma shallow_formed (hb : 0 < b) :
    Formed False (Shallow b) fun a => (ofExpr a).Shallow (b + 1) where
  leaf _ hn := .leaf (each_parts_iff.2 (by simp [hn])) hb
  plain hn _ hparts := .plain hparts hn
  form _ hparts := .level (by rwa [parts_ofExpr])

lemma shallow_invalid {tokens : List Token} {anchor : Offset} (hb : 0 < b) :
    (ofExpr (.invalid none tokens anchor)).Shallow b :=
  .leaf (by simp [Expr.parts]) hb

section Inner

variable [inner.Steady] (hl : inner.Flat k e b)

include hl

omit [inner.Steady] in
lemma blockHere_returns : Returns depth inner.blockHere fun a => (Node.block a).Shallow b :=
  .any fun _ => hl.block

lemma suffixed_returns {calls : Bool} :
    Returns depth (suffixed inner calls) fun a => (ofExpr a).Shallow (e + 1 + k) :=
  (primary_returns (shallow_formed hl.expr_pos) hl.expr).bind fun base hbase => by
    have hsuffixes := @hl.suffixes depth calls base (e + 1) hbase
    simpa using hsuffixes

lemma operand_returns :
    Returns depth (operand inner) fun a => (ofExpr a).Shallow (max b (e + k) + 1) := by
  have hpos := hl.expr_pos
  have hexpr : Returns depth inner.expression fun a => (ofExpr a).Shallow (max b (e + k)) :=
    hl.expr.imp fun a ha => ha.mono (by omega)
  refine .any fun kind => ?_
  split
  · refine simpleExpr_returns (shallow_formed (by omega)) hexpr False.elim ?_ ?_
    · exact (blockHere_returns hl).imp fun a ha => ha.mono (Nat.le_max_left b (e + k))
    · exact (suffixed_returns hl).imp fun a ha => ha.mono (by omega)
  · refine .any fun sign => hl.expr.bind fun a ha => .ret (.level ?_)
    have ha' : (ofExpr a).Shallow (max b (e + k)) := ha.mono (by omega)
    simpa [Expr.parts] using ha'

/-! ### The expressions of the next level out -/

lemma exprAround_returns {power : Nat} :
    Returns depth (exprAround inner power) fun a => (ofExpr a).Shallow (max b (e + k) + 1 + k) := by
  refine .nested (fun tokens => .any fun anchor => .ret (shallow_invalid (by omega))) fun _ => ?_
  refine (operand_returns hl).bind fun first hfirst => (hl.operators hfirst).imp fun a ha => ?_
  exact ha.mono (by omega)

lemma operatorsAround_returns {power : Nat} {first : Expr} (hfirst : (ofExpr first).Shallow h) :
    Returns depth (operatorsAround inner power first)
      fun a => (ofExpr a).Shallow (max h e + (k + 1)) := by
  have hpos := hl.expr_pos
  have hleave : (ofExpr first).Shallow (max h e + (k + 1)) := hfirst.mono (by omega)
  have hfirst' := hfirst.mono (Nat.le_max_left h e)
  refine .any fun kind => ?_
  split
  · exact .ret hleave
  · next op _ =>
    refine .ite (.ret hleave) (.nested (fun tokens => ?_) fun _ => ?_)
    · have hformed := shallow_formed (b := max h e) (by omega)
      exact (cutOff_returns hformed (by simpa using hfirst')).imp fun a ha => ha.mono (by omega)
    · refine .any fun sign => hl.expr.bind fun second hsecond => ?_
      have hboth : (ofExpr (.binary first op sign second)).Shallow (max h e + 1) := by
        refine .level ?_
        simpa [Expr.parts] using ⟨hfirst', hsecond.mono (Nat.le_max_right h e)⟩
      exact (hl.operators hboth).imp fun a ha => ha.mono (by omega)

lemma suffixesAround_returns {calls : Bool} {base : Expr} (hbase : (ofExpr base).Shallow h) :
    Returns depth (suffixesAround inner calls base)
      fun a => (ofExpr a).Shallow (max h (e + 1) + (k + 1)) := by
  have hformed := shallow_formed (b := max h (e + 1)) (by omega)
  have hbase' := hbase.mono (Nat.le_max_left h (e + 1))
  refine .any fun kind => .ite (.nested (fun tokens => ?_) fun _ => ?_) ?_
  · exact (cutOff_returns hformed (by simpa using hbase')).imp fun a ha => ha.mono (by omega)
  · have hexpr : Returns (depth + 1 : Nat) inner.expression fun a =>
        (ofExpr a).Shallow (max h (e + 1)) := hl.expr.imp fun a ha => ha.mono (by omega)
    have hkey : Returns (depth + 1 : Nat) inner.expression fun a => (ofExpr a).Shallow e := hl.expr
    have htable := (table_returns (shallow_formed hl.expr_pos) hkey False.elim).imp
      fun t ht => ht.mono (Nat.le_max_right h (e + 1))
    refine (suffix_returns hformed hexpr htable hbase').bind fun a ha => ?_
    exact (hl.suffixes ha).imp fun a ha => ha.mono (by omega)
  · exact .ret (hbase.mono (by omega))

end Inner

/-! ### Blocks -/

/-- Nothing that stands in a statement is deeper. -/
lemma Level.Flat.yields [inner.Steady] (hl : inner.Flat k e b) :
    inner.Yields depth (Shallow (max b (e + 1 + k))) where
  toInherited := (shallow_formed (by omega)).toInherited
  leads := False.elim
  expr := hl.expr.imp fun _ ha => ha.mono (by omega)
  suffixed := (suffixed_returns hl).imp fun _ ha => ha.mono (by omega)
  block := (blockHere_returns hl).imp fun _ ha => ha.mono (by omega)

lemma cutOffBlock_returns {anchor : Offset} {tokens : List Token} {x : Nat} :
    Returns depth (cutOffBlock anchor tokens) fun a => (Node.block a).Shallow (x + 1) := by
  have hstat : (Node.stat (.invalid none tokens anchor)).Shallow x :=
    .plain (by simp [parts, Stat.parts]) rfl
  refine .ret (.level ?_)
  cases tokens.isEmpty <;> simp [parts, hstat]

lemma blockAround_returns [inner.Steady] (hl : inner.Flat k e b) {anchor : Offset} :
    Returns depth (blockAround inner anchor)
      fun a => (Node.block a).Shallow (max b (e + 1 + k) + 1) := by
  refine .nested (fun tokens => cutOffBlock_returns) fun _ => .any fun count => ?_
  refine (statements_returns hl.yields).bind fun stats hstats => .ret (.level ?_)
  simpa [parts] using hstats

end Grammar

end LuaFront
