import LuaFront.Grammar.Chunk
import LuaFront.Proofs.Parser.Levels
import LuaFront.Proofs.Parser.Returns

/-!
What is read begins with a token. An expression may be missing, but not where the token that is
current begins one, and only there statements and fields of tables are left to expressions; what
has no tokens of its own can so only be an operand of an operator or a suffix.
-/

namespace LuaFront

/-- A node that is no block and no expression begins with a token. -/
def Node.Begun (n : Node) : Prop := n.isLevel = false → n.Led

namespace Grammar

open Parse ParseState Node

variable {inner : Level} {depth power : Nat} {kind : TokenKind}

/-! ### First operands -/

/-- The valid states at a depth. -/
abbrev valid (depth : Nat) : Setting := ⟨depth, True⟩

/-- What the parsers of a level read begins with a token if it begins with what has one, or at a
token that begins an expression. -/
structure Level.Heads (l : Level) (depth : Nat) : Prop where
  expr : ∀ {power kind}, kind.canBeginExpr = true →
    ReturnsAt kind (valid depth) (l.expr power) fun a => (ofExpr a).Led
  operators : ∀ {power first}, (ofExpr first).Led →
    Returns (valid depth) (l.operators power first) fun a => (ofExpr a).Led
  suffixes : ∀ {calls base}, (ofExpr base).Led →
    Returns (valid depth) (l.suffixes calls base) fun a => (ofExpr a).Led

section Operands

variable [inner.Steady]

lemma primary_led {w : Setting} (hkind : kind = .ident ∨ kind = .symbol .openParen) :
    ReturnsAt kind w (primary inner) fun a => (ofExpr a).Led := by
  refine .look ?_
  rcases hkind with rfl | rfl
  · exact .returns (.any fun t => .ret (.token rfl))
  · refine .returns (.any fun opening => .any fun e => .any fun closing => .ret ?_)
    exact .token (t := opening) rfl

lemma suffix_led {w : Setting} {base : Expr} (hbase : (ofExpr base).Led) :
    Returns w (suffix inner base) fun a => (ofExpr a).Led := by
  refine .any fun kind => ?_
  split
  · exact .any fun dot => .any fun name => .ret (.node rfl hbase)
  · refine .any fun opening => .any fun key => .any fun closing => .ret ?_
    exact .node rfl hbase
  · exact .any fun colon => .any fun name => .any fun args => .ret (.node rfl hbase)
  · exact .any fun args => .ret (.node rfl hbase)

variable (hl : inner.Heads depth)

include hl

lemma suffixed_led {calls : Bool} (hkind : kind = .ident ∨ kind = .symbol .openParen) :
    ReturnsAt kind (valid depth) (suffixed inner calls) fun a => (ofExpr a).Led :=
  (primary_led hkind).bind fun _ hbase => hl.suffixes hbase

lemma simpleExpr_led (hkind : kind.canBeginExpr = true) (hop : kind.unaryOp? = none) :
    ReturnsAt kind (valid depth) (simpleExpr inner) fun a => (ofExpr a).Led := by
  refine .look ?_
  split
  iterate 6 exact .returns (.any fun t => .ret (.token rfl))
  · exact .returns (.any fun t => .ret (.token rfl))
  · exact .returns (.any fun keyword => .any fun body => .ret (.token rfl))
  · refine suffixed_led hl ?_
    unfold TokenKind.canBeginExpr at hkind
    split at hkind <;> simp_all [TokenKind.unaryOp?]

lemma operand_led (hkind : kind.canBeginExpr = true) :
    ReturnsAt kind (valid depth) (operand inner) fun a => (ofExpr a).Led := by
  refine .look ?_
  split
  · next hop => exact simpleExpr_led hl hkind hop
  · exact .returns (.any fun sign => .any fun a => .ret (.token rfl))

lemma leads_valid : inner.Leads (valid depth) where
  expr hkind := hl.expr hkind
  suffixed hkind := suffixed_led hl hkind

end Operands

/-- At a token that begins an expression, tokens are given up if the limit is exceeded. -/
lemma nested_led {α : Type} {refused : List Token → Parse α} {p : Parse α} {P : α → Prop}
    (hkind : kind.canBeginExpr = true)
    (hrefused : ∀ t tokens, Returns (valid depth) (refused (t :: tokens)) P)
    (hp : depth < maxDepth → ReturnsAt kind (valid (depth + 1)) p P) :
    ReturnsAt kind (valid depth) (nested refused p) P := by
  rintro s ⟨rfl, hvalid⟩ rfl
  have hs := hvalid trivial
  cases hdeep : s.tooDeep with
  | true =>
    -- Once the rest of the input was given up, nothing begins there.
    rw [(hs.gaveUp hdeep).1] at hkind
    cases hkind
  | false =>
    by_cases hlimit : maxDepth ≤ s.depth
    · have hlead := Cursor.lead_le_remaining hs.eof
      rw [TokenKind.lead, if_pos hkind] at hlead
      obtain ⟨t, tokens, hcons⟩ := List.exists_cons_of_length_pos hlead
      rw [run_nested_refused hdeep hlimit, hcons]
      exact hrefused t tokens _ (Setting.Holds.onward ⟨rfl, fun _ => hs⟩ (.refuse s))
    · have hlt := Nat.lt_of_not_le hlimit
      rw [run_nested_entered hdeep hlt]
      exact hp hlt _ ⟨rfl, fun _ => hs.atDepth hlt⟩ rfl

section Around

variable [inner.Steady] (hl : depth < maxDepth → inner.Heads (depth + 1))

include hl

lemma Level.Heads.around : inner.around.Heads depth where
  expr {power kind} hkind := by
    refine nested_led hkind (fun t tokens => .any fun anchor => .ret (.token rfl)) fun hdepth => ?_
    exact (operand_led (hl hdepth) hkind).bind fun first hfirst => (hl hdepth).operators hfirst
  operators {power first} hfirst := by
    refine .any fun kind => ?_
    split
    · exact .ret hfirst
    · next op _ =>
      refine .ite (.ret hfirst) (.nested (fun tokens => .any fun anchor => .ret ?_) ?_)
      · exact .node rfl hfirst
      · refine fun hdepth => .any fun sign => .any fun second => (hl hdepth).operators ?_
        exact .node (m := ofExpr first) rfl hfirst
  suffixes {calls base} hbase := by
    refine .any fun kind => .ite (.nested (fun tokens => .any fun anchor => .ret ?_) ?_) ?_
    · exact .node rfl hbase
    · exact fun hdepth => (suffix_led hbase).bind fun a ha => (hl hdepth).suffixes ha
    · exact .ret hbase

end Around

/-! ### Whatever is read -/

lemma all_begun {n : Node} (hn : n.Begun) (h : Part.Each (All Begun) n.parts) : n.All Begun :=
  all_iff.2 ⟨hn, each_parts_iff.1 h⟩

lemma all_begun_level {n : Node} (hn : n.isLevel = true) (h : Part.Each (All Begun) n.parts) :
    n.All Begun :=
  all_begun (fun hplain => by simp [hn] at hplain) h

lemma all_begun_ofExpr {a : Expr} (h : Part.Each (All Begun) a.parts) : (ofExpr a).All Begun :=
  all_begun_level (by cases a <;> rfl) (by simpa using h)

lemma begun_formed : Formed True (·.All Begun) fun a => (ofExpr a).All Begun where
  leaf hn hchildren := all_begun_level hn (each_parts_iff.2 (by simp [hchildren]))
  plain _ hled h := all_begun (fun _ => hled trivial) h
  form _ h := all_begun_ofExpr h

lemma all_begun_stats {b : Block} (h : (Node.block b).All Begun) :
    ∀ a ∈ b.stats, (Node.stat a).All Begun := by
  have heach := each_parts_iff.2 (all_iff.1 h).2
  simpa [parts] using heach

/-- What the parsers of a level read is made of nodes that begin with tokens, if they are run in
valid states at some depth. -/
structure Level.Begins (l : Level) (depth : Nat) : Prop where
  heads : l.Heads depth
  expr : ∀ {power}, Returns (valid depth) (l.expr power) fun a => (ofExpr a).All Begun
  operators : ∀ {power first}, (ofExpr first).All Begun →
    Returns (valid depth) (l.operators power first) fun a => (ofExpr a).All Begun
  suffixes : ∀ {calls base}, (ofExpr base).All Begun →
    Returns (valid depth) (l.suffixes calls base) fun a => (ofExpr a).All Begun
  block : ∀ {anchor}, Returns (valid depth) (l.block anchor) fun b => (Node.block b).All Begun

section Inner

variable [inner.Steady] (hl : inner.Begins depth)

include hl

omit [inner.Steady] in
lemma blockHere_begun : Returns (valid depth) inner.blockHere fun b => (Node.block b).All Begun :=
  .any fun _ => hl.block

lemma suffixed_begun {calls : Bool} :
    Returns (valid depth) (suffixed inner calls) fun a => (ofExpr a).All Begun :=
  (primary_returns begun_formed hl.expr).bind fun _ hbase => hl.suffixes hbase

lemma leads_begun : (valid depth).valid → inner.Leads (valid depth) := fun _ =>
  leads_valid hl.heads

lemma table_begun : Returns (valid depth) (table inner) fun t => (Node.table t).All Begun :=
  table_returns begun_formed hl.expr (leads_begun hl)

lemma operand_begun : Returns (valid depth) (operand inner) fun a => (ofExpr a).All Begun := by
  refine .any fun kind => ?_
  split
  · exact simpleExpr_returns begun_formed hl.expr (leads_begun hl) (blockHere_begun hl)
      (suffixed_begun hl)
  · refine .any fun sign => hl.expr.bind fun a ha => .ret (all_begun_ofExpr ?_)
    simpa [Expr.parts] using ha

lemma yields_begun : inner.Yields (valid depth) (·.All Begun) where
  toInherited := begun_formed.toInherited
  leads := leads_begun hl
  expr := hl.expr
  suffixed := suffixed_begun hl
  block := blockHere_begun hl

end Inner

section Around

variable [inner.Steady] (hl : depth < maxDepth → inner.Begins (depth + 1))

include hl

lemma Level.Begins.around : inner.around.Begins depth where
  heads := .around fun hdepth => (hl hdepth).heads
  expr := .nested (fun tokens => cutOff_returns begun_formed (by simp)) fun hdepth =>
    (operand_begun (hl hdepth)).bind fun first hfirst => (hl hdepth).operators hfirst
  operators {power first} hfirst := by
    refine .any fun kind => ?_
    split
    · exact .ret hfirst
    · next op _ =>
      refine .ite (.ret hfirst) (.nested (fun tokens => ?_) fun hdepth => ?_)
      · exact cutOff_returns begun_formed (by simpa using hfirst)
      · refine .any fun sign => (hl hdepth).expr.bind fun second hsecond => ?_
        refine (hl hdepth).operators (all_begun_ofExpr ?_)
        simpa [Expr.parts] using ⟨hfirst, hsecond⟩
  suffixes {calls base} hbase := by
    refine .any fun kind => .ite (.nested (fun tokens => ?_) fun hdepth => ?_) (.ret hbase)
    · exact cutOff_returns begun_formed (by simpa using hbase)
    · have hsuffix := suffix_returns begun_formed (hl hdepth).expr (table_begun (hl hdepth)) hbase
      exact hsuffix.bind fun a ha => (hl hdepth).suffixes ha
  block {anchor} := by
    refine .nested (fun tokens => .ret (all_begun_level rfl ?_)) fun hdepth => .any fun count => ?_
    · cases tokens with
      | nil => simp [parts]
      | cons t tokens =>
        have hstat : (Node.stat (.invalid none (t :: tokens) anchor)).All Begun :=
          all_begun (fun _ => .token rfl) (by simp [parts, Stat.parts])
        simpa [parts] using hstat
    · refine (statements_returns (yields_begun (hl hdepth))).bind fun stats hstats => ?_
      exact .ret (all_begun_level rfl (by simpa [parts] using hstats))

end Around

/-- There are as many levels as can be entered from the depth where they are run. -/
lemma level_begins {k : Nat} (h : depth + k = maxDepth + 1) (hdepth : depth ≤ maxDepth) :
    (level k).Begins depth := by
  induction k generalizing depth with
  | zero => omega
  | succ k ih => exact .around fun hdepth => ih (by omega) hdepth

/-! ### Chunks -/

lemma outermost_begins : outermost.Begins 0 := level_begins (by decide) (Nat.zero_le _)

lemma strays_begun {bound : Nat} : Returns (valid 0) (strays bound)
    fun l => ∀ a ∈ l, (Node.stat a).All Begun := by
  induction bound with
  | zero => exact .ret (by simp)
  | succ bound ih =>
    refine .any fun found => .ite (.ret (by simp)) (.any fun stray => .error ?_)
    refine (blockHere_begun outermost_begins).bind fun rest hrest => ih.bind fun more hmore => ?_
    refine .ret ?_
    have hstray : (Node.stat (.invalid none [stray] stray.span.start)).All Begun :=
      all_begun (fun _ => .token rfl) (by simp [parts, Stat.parts])
    rw [List.cons_append, List.forall_mem_cons, List.forall_mem_append]
    exact ⟨hstray, all_begun_stats hrest, hmore⟩

/-- **Statements and fields of tables begin with tokens**, in whatever is read. -/
theorem chunk_begun {s : ParseState} (hs : s.Valid) (hdepth : s.depth = 0) :
    (Node.block (chunk.run s).1).All Begun := by
  have h : Returns (valid 0) chunk fun a => (Node.block a).All Begun := by
    refine .any fun t => outermost_begins.block.bind fun first hfirst => .any fun count => ?_
    refine strays_begun.bind fun more hmore => .ret (all_begun_level rfl ?_)
    simpa [parts, or_imp, forall_and] using ⟨all_begun_stats hfirst, hmore⟩
  exact h s ⟨hdepth, fun _ => hs⟩

end Grammar

end LuaFront
