import LuaFront.Proofs.Acceptance.Running

/-!
How the words of expressions begin, and what may come after them. A parser looks at one token to
tell the forms of a phrase apart, in a table at two.
-/

namespace LuaFront.Phrase

open Grammar

variable {o calls : Bool} {f g : Form} {k : TokenKind} {w v rest : List TokenKind}

@[simp] lemma front_cons : TokenKind.front (k :: w) = k := rfl

/-! ### Operators -/

lemma binaryOp?_of_mem (h : k ∈ binaryOps) : ∃ op, k.binaryOp? = some op ∧ 0 < op.leftPower := by
  simp only [binaryOps, List.mem_cons, List.not_mem_nil, or_false] at h
  rcases h with rfl | rfl | rfl | rfl | rfl | rfl | rfl | rfl | rfl | rfl | rfl | rfl | rfl | rfl
    | rfl | rfl | rfl | rfl | rfl | rfl | rfl <;> exact ⟨_, rfl, by decide⟩

lemma unaryOp?_of_mem (h : k ∈ unaryOps) : ∃ op, k.unaryOp? = some op := by
  simp only [unaryOps, List.mem_cons, List.not_mem_nil, or_false] at h
  rcases h with rfl | rfl | rfl | rfl <;> exact ⟨_, rfl⟩

lemma beginsSuffix_of_mem (h : k ∈ binaryOps) : beginsSuffix true k = false := by
  revert k
  decide

lemma canBeginExpr_of_mem (h : k ∈ unaryOps) : k.canBeginExpr = true := by
  revert k
  decide

/-! ### First tokens -/

lemma Derives.table_front (h : Derives true .table o w) : ∃ v, w = .symbol .openBrace :: v := by
  cases h
  exact ⟨_, rfl⟩

lemma Derives.args_front (h : Derives true .args o w) :
    ∃ k v, w = k :: v ∧ k ∈ [.symbol .openParen, .symbol .openBrace, .string] := by
  cases h with
  | argsParen => exact ⟨_, _, rfl, by simp⟩
  | argsTable htable =>
    obtain ⟨v, rfl⟩ := htable.table_front
    exact ⟨_, _, rfl, by simp⟩
  | argsString => exact ⟨_, _, rfl, by simp⟩

lemma Suffix.front (h : Suffix calls f g w) : ∃ k v, w = k :: v ∧ beginsSuffix calls k = true := by
  cases h with
  | dot | field | index | method => exact ⟨_, _, rfl, rfl⟩
  | call hargs =>
    obtain ⟨k, v, rfl, hk⟩ := hargs.args_front
    refine ⟨k, v, rfl, ?_⟩
    clear hargs
    decide +revert

lemma Suffixed.front (h : Suffixed calls g w) :
    ∃ k v, w = k :: v ∧ (k = .ident ∨ k = .symbol .openParen) := by
  obtain ⟨hprimary, -⟩ := h
  cases hprimary with
  | name => exact ⟨_, _, rfl, .inl rfl⟩
  | paren => exact ⟨_, _, rfl, .inr rfl⟩

lemma Simple.front (h : Simple o w) :
    ∃ k v, w = k :: v ∧ k.canBeginExpr = true ∧ k.unaryOp? = none := by
  cases h with
  | literal hk =>
    refine ⟨_, _, rfl, ?_⟩
    revert hk
    decide +revert
  | function => exact ⟨_, _, rfl, rfl, rfl⟩
  | table htable =>
    obtain ⟨v, rfl⟩ := htable.table_front
    exact ⟨_, _, rfl, rfl, rfl⟩
  | suffixed hw =>
    obtain ⟨k, v, rfl, rfl | rfl⟩ := hw.front <;> exact ⟨_, _, rfl, rfl, rfl⟩

lemma Chain.front (h : Chain o w) : ∃ k v, w = k :: v ∧ k.canBeginExpr = true := by
  cases h with
  | simple hw =>
    obtain ⟨k, v, rfl, hk, -⟩ := hw.front
    exact ⟨k, v, rfl, hk⟩
  | unary hk => exact ⟨_, _, rfl, canBeginExpr_of_mem hk⟩
  | binary hw =>
    obtain ⟨k, v, rfl, hk, -⟩ := hw.front
    exact ⟨k, _, rfl, hk⟩

/-! ### Second tokens -/

/-- No equals sign comes after a name that begins an operand. -/
lemma Simple.second (h : Simple o (.ident :: v)) (hrest : TokenKind.front rest ≠ .symbol .eq) :
    TokenKind.front (v ++ rest) ≠ .symbol .eq := by
  generalize hword : TokenKind.ident :: v = w at h
  cases h with
  | literal hk =>
    rw [← (List.cons.inj hword).1] at hk
    exact absurd hk (by decide)
  | function => exact absurd (List.cons.inj hword).1 (by decide)
  | table htable =>
    obtain ⟨v', rfl⟩ := htable.table_front
    exact absurd (List.cons.inj hword).1 (by decide)
  | suffixed hw =>
    obtain ⟨hprimary, hsuffixes⟩ := hw
    cases hprimary with
    | paren => exact absurd (List.cons.inj hword).1 (by decide)
    | name =>
      obtain rfl := (List.cons.inj hword).2
      cases hsuffixes with
      | nil => exact hrest
      | cons hfirst =>
        obtain ⟨k, v, rfl, hk⟩ := hfirst.front
        rintro ⟨⟩
        exact absurd hk (by decide)

lemma Chain.second (h : Chain o (.ident :: v)) (hrest : TokenKind.front rest ≠ .symbol .eq) :
    TokenKind.front (v ++ rest) ≠ .symbol .eq := by
  generalize hword : TokenKind.ident :: v = w at h
  cases h with
  | simple hw => exact (hword ▸ hw).second hrest
  | unary hk =>
    rw [← (List.cons.inj hword).1] at hk
    exact absurd hk (by decide)
  | binary hw hk =>
    obtain ⟨k', w', rfl, -⟩ := hw.front
    rw [List.cons_append] at hword
    obtain ⟨rfl, rfl⟩ := List.cons.inj hword
    rw [List.append_assoc]
    refine hw.second ?_
    rintro ⟨⟩
    exact absurd hk (by decide)

/-! ### What comes after -/

/-- What comes after an expression does not go on with it. -/
structure Stops (isOpen : Bool) (rest : List TokenKind) : Prop where
  operator : (TokenKind.front rest).binaryOp? = none
  suffix : isOpen = true → beginsSuffix true (.front rest) = false

/-- Nothing goes on with this token. -/
def isStop (k : TokenKind) : Bool := k.binaryOp?.isNone && !beginsSuffix true k

lemma Stops.ofFront (h : isStop (.front rest) = true) : Stops o rest := by
  simp only [isStop, Bool.and_eq_true, Option.isNone_iff_eq_none, Bool.not_eq_true'] at h
  exact ⟨h.1, fun _ => h.2⟩

lemma Stops.of (h : isStop k = true) : Stops o (k :: rest) := .ofFront h

/-! ### Statements -/

/-- The tokens that begin a statement other than a return statement. -/
def starters : List TokenKind :=
  [.symbol .semi, .ident, .symbol .openParen, .symbol .colonColon, .keyword .break_,
   .keyword .goto_, .keyword .do_, .keyword .while_, .keyword .repeat_, .keyword .if_,
   .keyword .for_, .keyword .function_, .keyword .local_]

lemma Derives.var_front (h : Derives true .var o w) :
    ∃ k v, w = k :: v ∧ (k = .ident ∨ k = .symbol .openParen) := by
  obtain ⟨-, f, hw, -⟩ := h.unrolled
  exact hw.front

lemma Derives.vars_front (h : Derives true (.list .var) o w) :
    ∃ k v, w = k :: v ∧ (k = .ident ∨ k = .symbol .openParen) := by
  cases h with
  | one hvar => exact hvar.var_front
  | more hvar =>
    obtain ⟨k, v, rfl, hk⟩ := hvar.var_front
    exact ⟨k, _, rfl, hk⟩

lemma Derives.stat_front (h : Derives true .stat o w) : ∃ k v, w = k :: v ∧ k ∈ starters := by
  cases h with
  | assign hvars =>
    obtain ⟨k, v, rfl, rfl | rfl⟩ := hvars.vars_front <;> exact ⟨_, _, rfl, by decide⟩
  | callStat hcall =>
    obtain ⟨k, v, rfl, rfl | rfl⟩ := hcall.unrolled.2.front <;> exact ⟨_, _, rfl, by decide⟩
  | _ => exact ⟨_, _, rfl, by decide⟩

lemma Derives.return_front (h : Derives true .return_ o w) : ∃ v, w = .keyword .return_ :: v := by
  cases h
  exact ⟨_, rfl⟩

lemma endsBlock_of_starter (h : k ∈ starters) : k.endsBlock = false := by
  decide +revert

/-- What comes after a statement does not go on with it. -/
structure Ends (isOpen : Bool) (rest : List TokenKind) : Prop extends Stops isOpen rest where
  comma : TokenKind.front rest ≠ .symbol .comma
  eq : TokenKind.front rest ≠ .symbol .eq

/-- The tokens that end a block. -/
def enders : List TokenKind :=
  [.eof, .keyword .end_, .keyword .else_, .keyword .elseif_, .keyword .until_]

lemma mem_enders (h : k.endsBlock = true) : k ∈ enders := by
  unfold TokenKind.endsBlock at h
  split at h <;> first | exact absurd h Bool.false_ne_true | simp [enders]

lemma endsBlock_of_canBeginExpr (h : k.canBeginExpr = true) : k.endsBlock = false := by
  have hall : ∀ k ∈ enders, k.canBeginExpr = false := by decide
  cases hends : k.endsBlock with
  | false => rfl
  | true => exact absurd ((hall k (mem_enders hends)).symm.trans h) Bool.false_ne_true

/-- A token that ends a block ends a statement too. -/
lemma Ends.of_endsBlock (h : (TokenKind.front rest).endsBlock = true) : Ends o rest := by
  have hall : ∀ k ∈ enders, isStop k = true ∧ k ≠ .symbol .comma ∧ k ≠ .symbol .eq := by decide
  obtain ⟨hstop, hcomma, heq⟩ := hall _ (mem_enders h)
  exact ⟨.ofFront hstop, hcomma, heq⟩

lemma Ends.of_starter (h : k ∈ starters) (ho : o = true → k ≠ .symbol .openParen) :
    Ends o (k :: rest) := by
  have hall : ∀ k ∈ starters, k.binaryOp? = none ∧ k ≠ .symbol .comma ∧ k ≠ .symbol .eq
      ∧ (k ≠ .symbol .openParen → beginsSuffix true k = false) := by decide
  obtain ⟨hop, hcomma, heq, hsuffix⟩ := hall k h
  exact ⟨⟨hop, fun hopen => hsuffix (ho hopen)⟩, hcomma, heq⟩

/-- After a statement of a block the block goes on with another one, or ends. -/
lemma Derives.block_ends {o' : Bool} (hv : Derives true .block o' v)
    (hgreedy : o = true → v.head? ≠ Option.some (.symbol .openParen))
    (hrest : (TokenKind.front rest).endsBlock = true) : Ends o (v ++ rest) := by
  cases hv with
  | emptyBlock => exact .of_endsBlock hrest
  | lastStat hreturn =>
    cases hreturn
    exact ⟨.of rfl, by simp, by simp⟩
  | stats hstat =>
    obtain ⟨k, u, rfl, hk⟩ := hstat.stat_front
    refine .of_starter hk fun ho heq => hgreedy ho ?_
    simp [heq]

end LuaFront.Phrase
