import LuaFront.Proofs.Parser.Steady
import LuaFront.Proofs.Tree.Leading
import LuaFront.Proofs.Tree.Levels

/-!
What the results of parsers have in common. A parser that is run at some depth gives a result with a
property, whatever its state is otherwise, or whatever it is if it is valid. A property that passes
from the parts of a statement to the statement holds of all that the parsers of statements make, if
it holds of the expressions and blocks in them; where states are valid, it need only pass to
statements that begin with a token.
-/

namespace LuaFront

namespace Parse

/-- The states at a depth: all of them, or those that are known to be valid. -/
structure Setting where
  depth : Nat
  valid : Prop

namespace Setting

instance : Coe Nat Setting := ⟨fun depth => ⟨depth, False⟩⟩

def Holds (w : Setting) (s : ParseState) : Prop := s.depth = w.depth ∧ (w.valid → s.Valid)

/-- The same one level further in. -/
abbrev deeper (w : Setting) : Setting := { w with depth := w.depth + 1 }

variable {w : Setting} {s t : ParseState}

lemma Holds.onward (h : w.Holds s) (ht : s.Onward t) : w.Holds t :=
  ⟨ht.depth.trans h.1, fun hvalid => ht.valid (h.2 hvalid)⟩

/-- At a depth, whatever the state is otherwise. -/
lemma Holds.at_depth (s : ParseState) : Holds s.depth s := ⟨rfl, False.elim⟩

end Setting

variable {α β : Type} {p : Parse α} {P P' : α → Prop} {Q : β → Prop} {f : α → Parse β}
  {w : Setting} {kind : TokenKind}

/-- In whatever state of a setting it is run, the parser gives a result with a property. -/
def Returns (w : Setting) (p : Parse α) (P : α → Prop) : Prop :=
  ∀ s : ParseState, w.Holds s → P (p.run s).1

/-- The same where the current token is of a kind. -/
def ReturnsAt (kind : TokenKind) (w : Setting) (p : Parse α) (P : α → Prop) : Prop :=
  ∀ s : ParseState, w.Holds s → s.cursor.current.kind = kind → P (p.run s).1

namespace Returns

lemma ret {b : β} (h : Q b) : Returns w (pure b) Q := fun _ _ => h

lemma bind [hsteady : Steady p] (hp : Returns w p P)
    (hf : ∀ a, P a → Returns w (f a) Q) : Returns w (p >>= f) Q :=
  fun s hs => hf _ (hp s hs) _ (hs.onward (hsteady.onward s))

lemma any [hsteady : Steady p] (hf : ∀ a, Returns w (f a) Q) : Returns w (p >>= f) Q :=
  fun s hs => hf _ _ (hs.onward (hsteady.onward s))

lemma error {span : Span} {message : String} {labels : List Label} {f : Unit → Parse β}
    (hf : Returns w (f ()) Q) : Returns w (Parse.error span message labels >>= f) Q := by
  intro s hs
  rw [run_bind (run_error_eq ..)]
  exact hf _ (hs.onward (.report s ..))

lemma ite {c : Prop} [Decidable c] {q r : Parse β} (hq : Returns w q Q)
    (hr : Returns w r Q) : Returns w (if c then q else r) Q := by
  split
  · exact hq
  · exact hr

lemma imp (hp : Returns w p P) (h : ∀ a, P a → P' a) : Returns w p P' :=
  fun s hs => h _ (hp s hs)

lemma and (hp : Returns w p P) (hp' : Returns w p P') :
    Returns w p fun a => P a ∧ P' a :=
  fun s hs => ⟨hp s hs, hp' s hs⟩

lemma nested {refused : List Token → Parse α}
    (hrefused : ∀ tokens, Returns w (refused tokens) P)
    (hp : w.depth < maxDepth → Returns w.deeper p P) :
    Returns w (Parse.nested refused p) P := by
  intro s hs
  cases hdeep : s.tooDeep with
  | true =>
    rw [run_nested_gaveUp hdeep]
    exact hrefused [] s hs
  | false =>
    obtain ⟨hdepth, hvalid⟩ := hs
    by_cases hlimit : maxDepth ≤ s.depth
    · rw [run_nested_refused hdeep hlimit]
      exact hrefused _ _ (Setting.Holds.onward ⟨hdepth, hvalid⟩ (.refuse s))
    · have hlt := Nat.lt_of_not_le hlimit
      rw [run_nested_entered hdeep hlt]
      exact hp (hdepth ▸ hlt) _ ⟨congrArg (· + 1) hdepth, fun hv => (hvalid hv).atDepth hlt⟩

/-! ### Looking at the current token -/

lemma look {f : TokenKind → Parse β} (hf : ∀ kind, ReturnsAt kind w (f kind) Q) :
    Returns w (currentKind >>= f) Q := fun s hs => hf _ s hs rfl

end Returns

namespace ReturnsAt

lemma returns (hp : Returns w p P) : ReturnsAt kind w p P := fun s hs _ => hp s hs

/-- What is known at any token, and what is known at this one if the state is valid. -/
lemma both (hp : Returns w p P) (hp' : w.valid → ReturnsAt kind w p P') :
    ReturnsAt kind w p fun a => P a ∧ (w.valid → P' a) :=
  fun s hs hat => ⟨hp s hs, fun hvalid => hp' hvalid s hs hat⟩

lemma look {f : TokenKind → Parse β} (hf : ReturnsAt kind w (f kind) Q) :
    ReturnsAt kind w (currentKind >>= f) Q := by
  rintro s hs rfl
  exact hf s hs rfl

lemma lookNext {f : TokenKind → Parse β} (hf : ∀ next, ReturnsAt kind w (f next) Q) :
    ReturnsAt kind w (nextKind >>= f) Q := fun s hs hkind => hf _ s hs hkind

lemma ite {c : Prop} [Decidable c] {q r : Parse β} (hq : ReturnsAt kind w q Q)
    (hr : ReturnsAt kind w r Q) : ReturnsAt kind w (if c then q else r) Q := by
  split
  · exact hq
  · exact hr

lemma bind [hsteady : Steady p] (hp : ReturnsAt kind w p P)
    (hf : ∀ a, P a → Returns w (f a) Q) : ReturnsAt kind w (p >>= f) Q :=
  fun s hs hkind => hf _ (hp s hs hkind) _ (hs.onward (hsteady.onward s))

end ReturnsAt

end Parse

namespace Grammar

open Parse Node

variable {α : Type} {inner : Level} {w : Setting} {bound : Nat}

/-! ### Lists -/

section Lists

variable {item : Parse α} [Steady item] {P : α → Prop}

lemma moreItems_returns (hitem : Returns w item P) {list : Separated α}
    (hlist : ∀ a ∈ list.items, P a) :
    Returns w (moreItems item bound list) fun l => ∀ a ∈ l.items, P a := by
  induction bound generalizing list with
  | zero => exact .ret hlist
  | succ bound ih =>
    refine .any fun found => ?_
    cases found with
    | none => exact .ret hlist
    | some comma =>
      refine hitem.bind fun next hnext => ih ?_
      simpa [or_imp, forall_and] using ⟨hlist, hnext⟩

lemma itemsAfter_returns (hitem : Returns w item P) {anchor : Offset} {first : α}
    (hfirst : P first) :
    Returns w (itemsAfter item anchor first) fun l => ∀ a ∈ l.items, P a := by
  refine .any fun count => moreItems_returns hitem ?_
  rw [Separated.items_push]
  simpa [Separated.items, Separated.empty] using hfirst

lemma commaList_returns (hitem : Returns w item P) :
    Returns w (commaList item) fun l => ∀ a ∈ l.items, P a :=
  .any fun _ => hitem.bind fun _ hfirst => itemsAfter_returns hitem hfirst

/-- What is put on a list leaves its first item first. -/
lemma moreItems_first {list : Separated α} {first : α} (hlist : list.items.head? = some first) :
    Returns w (moreItems item bound list) fun l => l.items.head? = some first := by
  induction bound generalizing list with
  | zero => exact .ret hlist
  | succ bound ih =>
    refine .any fun found => ?_
    cases found with
    | none => exact .ret hlist
    | some comma => exact .any fun next => ih (by simp [hlist])

lemma itemsAfter_first {anchor : Offset} {first : α} :
    Returns w (itemsAfter item anchor first) fun l => l.items.head? = some first :=
  .any fun _ => moreItems_first (by simp [Separated.items, Separated.empty, Separated.push])

end Lists

/-! ### Expressions -/

/-- The property holds of blocks and expressions without children, and passes from the parts of a
node that is none of these to the node. Where states are valid, such a node begins with a token. -/
structure Inherited (valid : Prop) (P : Node → Prop) : Prop where
  leaf : ∀ {n : Node}, n.isLevel = true → n.children = [] → P n
  plain : ∀ {n : Node}, n.isLevel = false → (valid → n.Led) → Part.Each P n.parts → P n

namespace Inherited

variable {valid : Prop} {P : Node → Prop} (h : Inherited valid P)

include h

lemma identifier (id : Identifier) : P (.identifier id) := h.leaf rfl rfl

/-- A node whose first part is a token has the property if its parts do. -/
lemma token {n : Node} {t : Token} {rest : List Part} (hn : n.isLevel = false)
    (hparts : n.parts = .token t :: rest) (heach : Part.Each P n.parts) : P n :=
  h.plain hn (fun _ => .token hparts) heach

end Inherited

/-- Of an expression without an operator of its own something is known, if its parts have the
property. -/
structure Formed (valid : Prop) (P : Node → Prop) (Q : Expr → Prop) : Prop
    extends Inherited valid P where
  form : ∀ {a : Expr}, a.isOperation = false → Part.Each P a.parts → Q a

/-- What is read at a token that begins an expression begins with a token. -/
structure Level.Leads (l : Level) (w : Setting) : Prop where
  expr : ∀ {kind : TokenKind}, kind.canBeginExpr = true →
    ReturnsAt kind w l.expression fun a => (ofExpr a).Led
  suffixed : ∀ {kind : TokenKind}, kind = .ident ∨ kind = .symbol .openParen →
    ReturnsAt kind w (suffixed l true) fun a => (ofExpr a).Led

section Expressions

variable {P : Node → Prop} {Q : Expr → Prop} [inner.Steady]

section Inherited

variable (hP : Inherited w.valid P)

include hP

lemma funcBody_returns (hblock : Returns w inner.blockHere fun b => P (.block b))
    {keyword : Token} : Returns w (funcBody inner keyword) fun f => P (.funcBody f) := by
  have hparam : ∀ p : Param, P (ofParam p) := fun p => by
    cases p <;> exact hP.leaf rfl rfl
  refine .any fun opening => .any fun params => .any fun closing => ?_
  refine hblock.bind fun block hblock => .any fun close => .ret (hP.token rfl rfl ?_)
  simpa [parts, FuncBody.parts, hparam] using hblock

variable (hexpr : Returns w inner.expression fun a => P (ofExpr a))

include hexpr

section Fields

variable (hled : w.valid → inner.Leads w)

include hled

lemma tableField_returns {kind : TokenKind}
    (hkind : kind.canBeginExpr = true ∨ kind = .symbol .openBracket) :
    ReturnsAt kind w (tableField inner) fun f => P (.tableField f) := by
  have hpositional : ∀ {kind : TokenKind}, kind.canBeginExpr = true →
      ReturnsAt kind w (do return .positional (← inner.expression))
        fun f => P (.tableField f) := fun hkind =>
    (ReturnsAt.both hexpr fun hvalid => (hled hvalid).expr hkind).bind fun value ⟨hvalue, hled⟩ =>
      .ret (hP.plain rfl (fun hvalid => .node rfl (hled hvalid))
        (by simpa [parts, TableField.parts] using hvalue))
  refine .look ?_
  split
  · refine .returns (.any fun opening => hexpr.bind fun key hkey => .any fun closing => ?_)
    refine .any fun eq => hexpr.bind fun value hvalue => .ret (hP.token rfl rfl ?_)
    simpa [parts, TableField.parts] using ⟨hkey, hvalue⟩
  · refine .lookNext fun next => .ite (.returns ?_) (hpositional rfl)
    refine .any fun name => .any fun eq => hexpr.bind fun value hvalue => .ret (hP.plain rfl ?_ ?_)
    · exact fun _ => .node rfl (.token rfl)
    · simpa [parts, TableField.parts, hP.identifier] using hvalue
  · next hbracket _ => exact hpositional (hkind.resolve_right hbracket)

lemma tableFields_returns {fields : Separated TableField}
    (hfields : ∀ f ∈ fields.items, P (.tableField f)) :
    Returns w (tableFields inner bound fields) fun l => ∀ f ∈ l.items, P (.tableField f) := by
  induction bound generalizing fields with
  | zero => exact .ret hfields
  | succ bound ih =>
    refine .look fun kind => ?_
    split
    · next hkind =>
      refine (tableField_returns hP hexpr hled (by simpa using hkind)).bind fun field hfield => ?_
      have hpush : ∀ f ∈ (fields.push field).items, P (.tableField f) := by
        simpa [or_imp, forall_and] using ⟨hfields, hfield⟩
      refine .any fun next => ?_
      split
      · exact .any fun sep => ih (by simpa using hpush)
      · exact .any fun sep => ih (by simpa using hpush)
      · exact .ret hpush
    · exact .returns (.ret hfields)

end Fields

lemma callArgs_returns (htable : Returns w (table inner) fun t => P (.table t)) :
    Returns w (callArgs inner) fun a => Part.Each P a.parts := by
  have hargs : Returns w (argList inner) fun l => ∀ a ∈ l.items, P (ofExpr a) := by
    refine .any fun found => .ite (.any fun anchor => .ret ?_) (commaList_returns hexpr)
    simp [Separated.items, Separated.empty]
  refine .any fun kind => ?_
  split
  · exact .any fun t => .ret (by simpa [CallArgs.parts] using hP.leaf rfl rfl)
  · exact htable.bind fun t ht => .ret (by simpa [CallArgs.parts] using ht)
  · refine .any fun opening => hargs.bind fun args hargs => .any fun closing => ?_
    exact .ret (by simpa [CallArgs.parts] using hargs)
  · refine .any fun _ => .any fun anchor => .ret ?_
    simp [CallArgs.parts, Separated.items, Separated.empty]

end Inherited

section Formed

variable (hP : Formed w.valid P Q) (hexpr : Returns w inner.expression fun a => P (ofExpr a))

include hP

omit [inner.Steady] in
lemma missingExpr_returns : Returns w missingExpr Q := by
  have hskip : ∀ tokens anchor, Q (.invalid none tokens anchor) :=
    fun tokens anchor => hP.form rfl (by simp [Expr.parts])
  exact .any fun _ => .any fun _ => .any fun _ => .ite (.ret (hskip _ _))
    (.any fun _ => .ret (hskip _ _))

omit [inner.Steady] in
lemma cutOff_returns {kept : Option Expr} (hkept : ∀ a ∈ kept, P (ofExpr a))
    {tokens : List Token} : Returns w (cutOff kept tokens) Q := by
  refine .any fun anchor => .ret (hP.form rfl ?_)
  simpa [Expr.parts] using hkept

include hexpr

lemma table_returns (hled : w.valid → inner.Leads w) :
    Returns w (table inner) fun t => Q (.table t) := by
  refine .any fun opening => .any fun count => ?_
  refine (tableFields_returns hP.toInherited hexpr hled ?_).bind fun fields hfields =>
    .any fun closing => .ret (hP.form rfl ?_)
  · simp [Separated.items, Separated.empty]
  · simpa [Expr.parts, Table.parts] using hfields

lemma suffix_returns (htable : Returns w (table inner) fun t => P (.table t)) {base : Expr}
    (hbase : P (ofExpr base)) : Returns w (suffix inner base) Q := by
  have hargs := callArgs_returns hP.toInherited hexpr htable
  refine .any fun kind => ?_
  split
  · refine .any fun dot => .any fun name => .ret (hP.form rfl ?_)
    simpa [Expr.parts, hP.identifier] using hbase
  · refine .any fun opening => hexpr.bind fun key hkey => .any fun closing => ?_
    exact .ret (hP.form rfl (by simpa [Expr.parts] using ⟨hbase, hkey⟩))
  · refine .any fun colon => .any fun name => hargs.bind fun args hargs => .ret (hP.form rfl ?_)
    simpa [Expr.parts, hP.identifier] using ⟨hbase, hargs⟩
  · refine hargs.bind fun args hargs => .ret (hP.form rfl ?_)
    simpa [Expr.parts] using ⟨hbase, hargs⟩

lemma primary_returns : Returns w (primary inner) Q := by
  refine .any fun kind => ?_
  split
  · exact .any fun t => .ret (hP.form rfl (by simp [Expr.parts]))
  · refine .any fun opening => hexpr.bind fun a ha => .any fun closing => .ret (hP.form rfl ?_)
    simpa [Expr.parts] using ha
  · exact .any fun t => .ret (hP.form rfl (by simp [Expr.parts]))
  · exact missingExpr_returns hP

lemma simpleExpr_returns (hled : w.valid → inner.Leads w)
    (hblock : Returns w inner.blockHere fun b => P (.block b))
    (hsuffixed : Returns w (suffixed inner true) Q) : Returns w (simpleExpr inner) Q := by
  refine .any fun kind => ?_
  split
  iterate 6 exact .any fun t => .ret (hP.form rfl (by simp [Expr.parts]))
  · exact table_returns hP hexpr hled
  · refine .any fun keyword => (funcBody_returns hP.toInherited hblock).bind fun body hbody => ?_
    exact .ret (hP.form rfl (by simpa [Expr.parts] using hbody))
  · exact hsuffixed

end Formed

end Expressions

/-! ### Statements -/

/-- The expressions and blocks that stand in a statement have a property. -/
structure Level.Yields (l : Level) (w : Setting) (P : Node → Prop) : Prop
    extends Inherited w.valid P where
  leads : w.valid → l.Leads w
  expr : Returns w l.expression fun a => P (ofExpr a)
  suffixed : ∀ {calls}, Returns w (suffixed l calls) fun a => P (ofExpr a)
  block : Returns w l.blockHere fun b => P (.block b)

section Statements

variable {P : Node → Prop} [inner.Steady] (hl : inner.Yields w P)

include hl

lemma exprs_returns : Returns w inner.exprList fun l => ∀ a ∈ l.items, P (ofExpr a) :=
  commaList_returns hl.expr

lemma elseIfs_returns :
    Returns w (elseIfs inner bound) fun l => ∀ c ∈ l, P (.elseIf c) := by
  induction bound with
  | zero => exact .ret (by simp)
  | succ bound ih =>
    refine .any fun found => ?_
    cases found with
    | none => exact .ret (by simp)
    | some keyword =>
      refine hl.expr.bind fun cond hcond => .any fun opener => hl.block.bind fun block hblock => ?_
      refine ih.bind fun clauses hclauses => .ret ?_
      refine List.forall_mem_cons.2 ⟨hl.token rfl rfl ?_, hclauses⟩
      simpa [parts] using ⟨hcond, hblock⟩

lemma else_returns :
    Returns w (else_ inner) fun c => ∀ a ∈ c.toList, P (.else_ a) := by
  refine .any fun found => ?_
  cases found with
  | none => exact .ret (by simp)
  | some keyword =>
    refine hl.block.bind fun block hblock => .ret ?_
    have hclause : P (.else_ ⟨keyword, block⟩) := hl.token rfl rfl (by simpa [parts] using hblock)
    simpa using hclause

lemma ifStat_returns : Returns w (ifStat inner) fun a => P (.stat a) := by
  refine .any fun keyword => hl.expr.bind fun cond hcond => .any fun opener => ?_
  refine hl.block.bind fun block hblock => .any fun count => ?_
  refine (elseIfs_returns hl).bind fun clauses hclauses => ?_
  refine (else_returns hl).bind fun last hlast => .any fun close => .ret (hl.token rfl rfl ?_)
  simpa [parts, Stat.parts, IfStat.parts] using ⟨hcond, hblock, hclauses, by simpa using hlast⟩

lemma whileStat_returns : Returns w (whileStat inner) fun a => P (.stat a) := by
  refine .any fun keyword => hl.expr.bind fun cond hcond => .any fun opener => ?_
  refine hl.block.bind fun block hblock => .any fun close => .ret (hl.token rfl rfl ?_)
  simpa [parts, Stat.parts] using ⟨hcond, hblock⟩

lemma doStat_returns : Returns w (doStat inner) fun a => P (.stat a) := by
  refine .any fun keyword => hl.block.bind fun block hblock => .any fun close => ?_
  exact .ret (hl.token rfl rfl (by simpa [parts, Stat.parts] using hblock))

lemma repeatStat_returns : Returns w (repeatStat inner) fun a => P (.stat a) := by
  refine .any fun keyword => hl.block.bind fun block hblock => .any fun close => ?_
  refine hl.expr.bind fun cond hcond => .ret (hl.token rfl rfl ?_)
  simpa [parts, Stat.parts] using ⟨hblock, hcond⟩

lemma step_returns :
    Returns w (step inner) fun a => Part.Each P (a.toList.flatMap Step.parts) := by
  refine .any fun found => ?_
  cases found with
  | none => exact .ret (by simp)
  | some comma =>
    exact hl.expr.bind fun value hvalue => .ret (by simpa [Step.parts] using hvalue)

lemma forStat_returns : Returns w (forStat inner) fun a => P (.stat a) := by
  refine .any fun keyword => .any fun current => .any fun next => .ite ?_ ?_
  · refine .any fun var => .any fun eq => hl.expr.bind fun start hstart => .any fun comma => ?_
    refine hl.expr.bind fun limit hlimit => (step_returns hl).bind fun step hstep => ?_
    refine .any fun opener => hl.block.bind fun block hblock => .any fun close => ?_
    refine .ret (hl.token rfl rfl ?_)
    simpa [parts, Stat.parts, NumericFor.parts, hl.identifier] using
      ⟨hstart, hlimit, hstep, hblock⟩
  · refine .any fun names => .any fun in_ => (exprs_returns hl).bind fun exprs hexprs => ?_
    refine .any fun opener => hl.block.bind fun block hblock => .any fun close => ?_
    refine .ret (hl.token rfl rfl ?_)
    simpa [parts, Stat.parts, GenericFor.parts, hl.identifier] using ⟨hexprs, hblock⟩

omit [inner.Steady] in
lemma functionName_returns :
    Returns w (functionName inner) fun a => P (ofExpr a) :=
  .any fun _ => .ite hl.suffixed (.any fun _ => .ret (hl.identifier _))

lemma functionStat_returns : Returns w (functionStat inner) fun a => P (.stat a) := by
  refine .any fun keyword => (functionName_returns hl).bind fun name hname => .any fun _ => ?_
  refine .any fun method => (funcBody_returns hl.toInherited hl.block).bind fun body hbody => ?_
  refine .ret (hl.token rfl rfl ?_)
  cases method <;> simpa [parts, Stat.parts, MethodName.parts, hl.identifier] using ⟨hname, hbody⟩

lemma localFunction_returns : Returns w (localFunction inner) fun a => P (.stat a) := by
  refine .any fun keyword => .any fun second => .any fun name => ?_
  refine (funcBody_returns hl.toInherited hl.block).bind fun body hbody => ?_
  refine .ret (hl.token rfl rfl ?_)
  simpa [parts, Stat.parts, hl.identifier] using hbody

lemma assignedValues_returns {eq : Token} :
    Returns w (assignedValues inner eq) fun l => ∀ a ∈ l.items, P (ofExpr a) := by
  intro s hs
  rw [run_assignedValues]
  split
  · next hback =>
    have hnone : Returns w
        (error (.empty eq.span.stop) "expected expression after '='" []
          >>= fun _ => return noValues eq.span.stop) fun l => ∀ a ∈ l.items, P (ofExpr a) := by
      refine .any fun _ => .ret ?_
      rw [noValues, Separated.items_push]
      simpa [Separated.items, Separated.empty] using hl.leaf rfl rfl
    have honward := Steady.onward (p := inner.exprList) s
    exact hnone _ (hs.onward (honward.retry (by simp [hback.1])))
  · exact exprs_returns hl s hs

lemma localStat_returns : Returns w (localStat inner) fun a => P (.stat a) := by
  refine .any fun keyword => .any fun names => .any fun found => ?_
  cases found with
  | some eq =>
    refine (assignedValues_returns hl).bind fun values hvalues => .ret (hl.token rfl rfl ?_)
    simpa [parts, Stat.parts, hl.identifier] using hvalues
  | none =>
    refine .any fun anchor => .ret (hl.token rfl rfl ?_)
    simp [parts, Stat.parts, hl.identifier, Separated.items, Separated.empty]

lemma assignment_returns {first : Expr} (hfirst : P (ofExpr first))
    (hled : w.valid → (ofExpr first).Led) :
    Returns w (assignment inner first) fun a => P (.stat a) := by
  refine ((itemsAfter_returns hl.suffixed hfirst).and itemsAfter_first).bind ?_
  rintro targets ⟨htargets, hhead⟩
  refine .any fun _ => ?_
  refine .any fun eq => (assignedValues_returns hl).bind fun values hvalues => ?_
  refine .ret (hl.plain rfl (fun hvalid => ?_) ?_)
  · obtain ⟨rest, hparts⟩ := Separated.parts_of_first Node.ofExpr hhead
    exact .node (by rw [parts, Stat.parts, hparts]; rfl) (hled hvalid)
  · simpa [parts, Stat.parts] using ⟨htargets, hvalues⟩

omit [inner.Steady] in
lemma notAStatement_returns {a : Expr} (ha : P (ofExpr a)) (hled : w.valid → (ofExpr a).Led) :
    Returns w (notAStatement a) fun a => P (.stat a) :=
  .any fun _ => .ret (hl.plain rfl (fun hvalid => .node rfl (hled hvalid))
    (by simpa [parts, Stat.parts] using ha))

lemma exprStat_returns {kind : TokenKind} (hkind : kind = .ident ∨ kind = .symbol .openParen) :
    ReturnsAt kind w (exprStat inner) fun a => P (.stat a) := by
  have hsuffixed := ReturnsAt.both hl.suffixed fun hvalid => (hl.leads hvalid).suffixed hkind
  refine hsuffixed.bind fun a h => .any fun kind => ?_
  obtain ⟨ha, hled⟩ := h
  split
  · exact assignment_returns hl ha hled
  · exact assignment_returns hl ha hled
  · refine .ite (.ret (hl.plain rfl (fun hvalid => .node rfl (hled hvalid)) ?_))
      (notAStatement_returns hl ha hled)
    simpa [parts, Stat.parts] using ha

lemma returnStat_returns : Returns w (returnStat inner) fun a => P (.stat a) := by
  refine .any fun keyword => ?_
  have hvalues : Returns w (returnValues inner) fun l => ∀ a ∈ l.items, P (ofExpr a) := by
    refine .any fun kind => .ite (.any fun anchor => .ret ?_) (exprs_returns hl)
    simp [Separated.items, Separated.empty]
  refine hvalues.bind fun values hvalues => .any fun semi => .ret (hl.token rfl rfl ?_)
  simpa [parts, Stat.parts] using hvalues

omit [inner.Steady] in
lemma labelStat_returns : Returns w labelStat fun a => P (.stat a) := by
  refine .any fun opening => .any fun name => .any fun closing => .ret (hl.token rfl rfl ?_)
  simp [parts, Stat.parts, hl.identifier]

omit [inner.Steady] in
lemma skipToken_returns : Returns w skipToken fun a => P (.stat a) :=
  .any fun _ => .ret (hl.token rfl rfl (by simp [parts, Stat.parts]))

lemma statement_returns : Returns w (statement inner) fun a => P (.stat a) := by
  refine .look fun kind => ?_
  split
  · exact .returns (.any fun t => .ret (hl.token rfl rfl (by simp [parts, Stat.parts])))
  · exact .returns (ifStat_returns hl)
  · exact .returns (whileStat_returns hl)
  · exact .returns (doStat_returns hl)
  · exact .returns (forStat_returns hl)
  · exact .returns (repeatStat_returns hl)
  · exact .returns (functionStat_returns hl)
  · exact .returns (.any fun next => .ite (localFunction_returns hl) (localStat_returns hl))
  · exact .returns (labelStat_returns hl)
  · exact .returns (returnStat_returns hl)
  · exact .returns (.any fun t => .ret (hl.token rfl rfl (by simp [parts, Stat.parts])))
  · refine .returns (.any fun keyword => .any fun name => .ret (hl.token rfl rfl ?_))
    simp [parts, Stat.parts, hl.identifier]
  · exact exprStat_returns hl (.inl rfl)
  · exact exprStat_returns hl (.inr rfl)
  · exact .returns (skipToken_returns hl)
  · split
    · next hkind =>
      exact (ReturnsAt.both hl.expr fun hvalid => (hl.leads hvalid).expr hkind).bind
        fun a ha => notAStatement_returns hl ha.1 ha.2
    · exact .returns (.any fun _ => skipToken_returns hl)

lemma statements_returns {afterReturn : Bool} :
    Returns w (statements inner bound afterReturn) fun l => ∀ a ∈ l, P (.stat a) := by
  induction bound generalizing afterReturn with
  | zero => exact .ret (by simp)
  | succ bound ih =>
    refine .any fun kind => .ite (.ret (by simp)) ?_
    refine (statement_returns hl).bind fun a ha => .any fun _ => ih.bind fun more hmore => ?_
    exact .ret (List.forall_mem_cons.2 ⟨ha, hmore⟩)

end Statements

end Grammar

end LuaFront
