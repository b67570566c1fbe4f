import LuaFront.Grammar.Chunk
import LuaFront.Proofs.Parser.Returns
import LuaFront.Proofs.Tree.Grouping

/-!
What stands before a suffix. A field is taken of a name, of an expression in parentheses or of what
has suffixes itself, and so are elements and calls; literals, tables, functions and operations have
no suffixes.
-/

namespace LuaFront

namespace Expr

/-- Suffixes can come after the expression. -/
def isPrefix : Expr → Bool
  | name .. | paren .. | field .. | index .. | call .. | methodCall .. | invalid .. => true
  | _ => false

/-- What the last suffix of the expression comes after. -/
def base? : Expr → Option Expr
  | field base .. | index base .. | call base _ | methodCall base .. => some base
  | _ => none

end Expr

namespace Node

/-- Suffixes come after what can have them. -/
def Based : Node → Prop
  | expr e => ∀ b ∈ e.base?, b.isPrefix = true
  | _ => True

lemma based_ofExpr {a : Expr} (h : ∀ b ∈ a.base?, b.isPrefix = true) : (ofExpr a).Based := by
  cases a <;> trivial

lemma all_based {n : Node} (hn : n.Based) (h : Part.Each (All Based) n.parts) : n.All Based :=
  all_iff.2 ⟨hn, each_parts_iff.1 h⟩

lemma all_based_ofExpr {a : Expr} (h : ∀ b ∈ a.base?, b.isPrefix = true)
    (hparts : Part.Each (All Based) a.parts) : (ofExpr a).All Based :=
  all_based (based_ofExpr h) (by simpa using hparts)

lemma all_based_unsuffixed {a : Expr} (h : a.base? = none)
    (hparts : Part.Each (All Based) a.parts) : (ofExpr a).All Based :=
  all_based_ofExpr (by simp [h]) hparts

lemma all_based_plain {n : Node} (hn : n.isLevel = false) (h : Part.Each (All Based) n.parts) :
    n.All Based := by
  refine all_based ?_ h
  cases n <;> trivial

lemma all_based_leaf {n : Node} (h : n.children = []) : n.All Based := by
  refine all_based ?_ (each_parts_iff.2 (by simp [h]))
  cases n with
  | expr e => cases e <;> simp_all [Based, Expr.base?, children, parts, Expr.parts, Part.node?]
  | _ => trivial

end Node

namespace Grammar

open Parse ParseState Node

variable {inner : Level} {depth power : Nat}

/-! ### Forms of expressions -/

section Forms

variable [inner.Steady]

omit [inner.Steady] in
lemma missingExpr_isPrefix :
    Returns depth missingExpr fun a => a.isPrefix = true ∧ a.base? = none :=
  .any fun _ => .any fun _ => .any fun _ => .ite (.ret ⟨rfl, rfl⟩) (.any fun _ => .ret ⟨rfl, rfl⟩)

lemma primary_isPrefix :
    Returns depth (primary inner) fun a => a.isPrefix = true ∧ a.base? = none := by
  refine .any fun kind => ?_
  split
  · exact .any fun t => .ret ⟨rfl, rfl⟩
  · exact .any fun opening => .any fun e => .any fun closing => .ret ⟨rfl, rfl⟩
  · exact .any fun t => .ret ⟨rfl, rfl⟩
  · exact missingExpr_isPrefix

lemma suffix_isPrefix {base : Expr} :
    Returns depth (suffix inner base) fun a => a.isPrefix = true ∧ a.base? = some base := by
  refine .any fun kind => ?_
  split
  · exact .any fun dot => .any fun name => .ret ⟨rfl, rfl⟩
  · exact .any fun opening => .any fun key => .any fun closing => .ret ⟨rfl, rfl⟩
  · exact .any fun colon => .any fun name => .any fun args => .ret ⟨rfl, rfl⟩
  · exact .any fun args => .ret ⟨rfl, rfl⟩

end Forms

/-! ### Operands -/

/-- The parsers of a level put suffixes where they can stand, if they are run at some depth. -/
structure Level.Bases (l : Level) (depth : Nat) : Prop where
  expr : ∀ {power}, Returns depth (l.expr power) fun a => (ofExpr a).All Based
  operators : ∀ {power first}, (ofExpr first).All Based →
    Returns depth (l.operators power first) fun a => (ofExpr a).All Based
  suffixes : ∀ {calls base}, (ofExpr base).All Based → base.isPrefix = true →
    Returns depth (l.suffixes calls base) fun a => (ofExpr a).All Based
  block : ∀ {anchor}, Returns depth (l.block anchor) fun b => (Node.block b).All Based

/-- Without regard to what the expression comes after. -/
lemma based_formed : Formed False (·.All Based) fun a => Part.Each (All Based) a.parts where
  leaf _ hn := all_based_leaf hn
  plain hn _ hparts := all_based_plain hn hparts
  form _ hparts := hparts

section Operands

variable [inner.Steady] (hl : inner.Bases depth)

include hl

omit [inner.Steady] in
lemma blockHere_based : Returns depth inner.blockHere fun b => (Node.block b).All Based :=
  .any fun _ => hl.block

lemma suffixed_based {calls : Bool} : Returns depth (suffixed inner calls)
    fun a => (ofExpr a).All Based := by
  have hprimary := (primary_returns based_formed hl.expr).and primary_isPrefix
  refine hprimary.bind fun base ⟨hparts, hopen, hbase⟩ => hl.suffixes ?_ hopen
  exact all_based_unsuffixed hbase hparts

lemma table_based : Returns depth (table inner) fun t => (Node.table t).All Based :=
  (table_returns based_formed hl.expr False.elim).imp fun _ ht => all_based trivial ht

lemma suffix_based {base : Expr} (hbase : (ofExpr base).All Based)
    (hopen : base.isPrefix = true) :
    Returns depth (suffix inner base) fun a => (ofExpr a).All Based ∧ a.isPrefix = true := by
  have hsuffix := (suffix_returns based_formed hl.expr (table_based hl) hbase).and suffix_isPrefix
  refine hsuffix.imp fun a ⟨hparts, ha, hlast⟩ => ⟨all_based_ofExpr ?_ hparts, ha⟩
  simpa [hlast] using hopen

lemma simpleExpr_based : Returns depth (simpleExpr inner) fun a => (ofExpr a).All Based := by
  refine .any fun kind => ?_
  split
  iterate 6 exact .any fun t => .ret (all_based_leaf rfl)
  · exact (table_based hl).bind fun t ht => .ret ht
  · refine .any fun keyword => ?_
    refine (funcBody_returns based_formed.toInherited (blockHere_based hl)).bind ?_
    intro body hbody
    exact .ret (all_based_unsuffixed rfl (by simpa [Expr.parts] using hbody))
  · exact suffixed_based hl

lemma operand_based : Returns depth (operand inner) fun a => (ofExpr a).All Based := by
  refine .any fun kind => ?_
  split
  · exact simpleExpr_based hl
  · refine .any fun sign => hl.expr.bind fun a ha => .ret (all_based_unsuffixed rfl ?_)
    simpa [Expr.parts] using ha

lemma yields_based : inner.Yields depth (·.All Based) where
  toInherited := based_formed.toInherited
  leads := False.elim
  expr := hl.expr
  suffixed := suffixed_based hl
  block := blockHere_based hl

end Operands

/-! ### The parsers of the next level out -/

section Around

variable [inner.Steady] (hl : depth < maxDepth → inner.Bases (depth + 1))

omit [inner.Steady] in
lemma cutOff_based {kept : Option Expr} (hkept : ∀ a ∈ kept, (ofExpr a).All Based)
    {tokens : List Token} : Returns depth (cutOff kept tokens) fun a => (ofExpr a).All Based :=
  .any fun anchor => .ret (all_based_unsuffixed rfl (by simpa [Expr.parts] using hkept))

include hl

lemma Level.Bases.around : inner.around.Bases depth where
  expr := .nested (fun tokens => cutOff_based (by simp)) fun hdepth =>
    (operand_based (hl hdepth)).bind fun first hfirst => (hl hdepth).operators hfirst
  operators {power first} hfirst := by
    refine .any fun kind => ?_
    split
    · exact .ret hfirst
    · next op _ =>
      refine .ite (.ret hfirst) (.nested (fun tokens => cutOff_based (by simpa using hfirst)) ?_)
      refine fun hdepth => .any fun sign => (hl hdepth).expr.bind fun second hsecond => ?_
      refine (hl hdepth).operators (all_based_unsuffixed rfl ?_)
      simpa [Expr.parts] using ⟨hfirst, hsecond⟩
  suffixes {calls base} hbase hopen := by
    refine .any fun kind => .ite (.nested (fun tokens => ?_) fun hdepth => ?_) (.ret hbase)
    · exact cutOff_based (by simpa using hbase)
    · exact (suffix_based (hl hdepth) hbase hopen).bind fun a ha =>
        (hl hdepth).suffixes ha.1 ha.2
  block {anchor} := by
    refine .nested (fun tokens => .ret (all_based trivial ?_)) fun hdepth => .any fun count => ?_
    · have hstat : (Node.stat (.invalid none tokens anchor)).All Based :=
        all_based_plain rfl (by simp [parts, Stat.parts])
      cases tokens.isEmpty <;> simp [parts, hstat]
    · refine (statements_returns (yields_based (hl hdepth))).bind fun stats hstats => ?_
      exact .ret (all_based trivial (by simpa [parts] using hstats))

end Around

/-! ### All levels -/

/-- **Suffixes come after what can have them**, in whatever is read. -/
theorem level_bases {k : Nat} (h : depth + k = maxDepth + 1) (hdepth : depth ≤ maxDepth) :
    (level k).Bases depth := by
  induction k generalizing depth with
  | zero => omega
  | succ k ih => exact .around fun hdepth => ih (by omega) hdepth

end Grammar

end LuaFront
