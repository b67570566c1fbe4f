import LuaFront.Proofs.Parser.Behind
import LuaFront.Proofs.Parser.Inversion
import LuaFront.Proofs.Parser.Targets
import LuaFront.Proofs.Scope.Displaced

/-!
Statements with a block at their end. Where one is read without a report and its last block is
empty, that block begins behind the same tokens if it is not closed, and goes on up to the end of
input.
-/

namespace LuaFront

namespace Grammar

open Parse ParseState Excerpt

variable {α β : Type} {x : Excerpt} {depth k : Nat} {s t u v : ParseState}
  {pre : Cursor → Prop} {act : α → α} {kind : TokenKind}
  {post : Block → α → Offset → Prop} {post' : Block → β → Offset → Prop}

/-! ### Statements with a block -/

/-- The whole has an unclosed statement, and what that makes visible in its block is what the
statement of the part does. -/
def Bound (x : Excerpt) (part : Stat) (b : Block) (a : Stat) (_ : Offset) : Prop :=
  a.Bears b ∧ a.lent.map x.move.binding = part.lent

section Statements

variable (hk : depth + x.gap + k = maxDepth + 1) (hecho : x.Echo depth s t)
include hk hecho

lemma doStat_meets {keyword close : Token} {b : Block}
    (hat : t.cursor.current.kind = .keyword .do_)
    (hgate : t.cursor.ahead.length = x.close.length) :
    Meets x (Bound x (.do_ keyword b close)) ((doStat (level k)).run s) := by
  obtain ⟨hfacing, -, hbehind⟩ := pass hecho hgate hat (by decide) hk
  rw [doStat, run_bind (run_advance s)]
  refine (Meets.here hbehind).bind fun b a s' hended ha => ⟨?_, rfl⟩
  subst ha
  exact .do_ (isMissing_ended hended (by decide))

lemma repeatStat_meets {keyword close : Token} {b : Block} {cond : Expr}
    (hat : t.cursor.current.kind = .keyword .repeat_)
    (hgate : t.cursor.ahead.length = x.close.length) :
    Meets x (Bound x (.repeat_ keyword b close cond)) ((repeatStat (level k)).run s) := by
  obtain ⟨hfacing, -, hbehind⟩ := pass hecho hgate hat (by decide) hk
  rw [repeatStat, run_bind (run_advance s)]
  refine (Meets.here hbehind).bind fun b a s' hended ha => ⟨?_, rfl⟩
  subst ha
  have hended' := (hended.run (expectClosing (.keyword .until_) s.cursor.current)).ended
  obtain ⟨skipped, anchor, hcond⟩ := run_expression_ended (k := k) hended'
  have hrun : ∀ f : Token → Expr → Stat, ((do
      let close ← expectClosing (.keyword .until_) s.cursor.current
      return f close (← (level k).expression) : Parse Stat).run s').1
      = f ((expectClosing (.keyword .until_) s.cursor.current).run s').1
        ((level k).expression.run
          ((expectClosing (.keyword .until_) s.cursor.current).run s').2).1 := fun _ => rfl
  rw [hrun, hcond]
  exact .repeat_ (isMissing_ended hended (by decide))

lemma whileStat_meets {keyword opener close : Token} {cond : Expr} {b : Block}
    (hat : t.cursor.current.kind = .keyword .while_)
    (hq : Quiet (whileStat (level (k + x.gap))) t (.while_ keyword cond opener b close) u)
    (hb : b.stats = []) (hgate : x.close.length = u.cursor.ahead.length + 2) :
    Meets x (Bound x (.while_ keyword cond opener b close)) ((whileStat (level k)).run s) := by
  obtain ⟨keyword, t₁, h₁, hq⟩ := hq.bind
  obtain ⟨cond, t₂, h₂, hq⟩ := hq.bind
  obtain ⟨opener, t₃, h₃, hq⟩ := hq.bind
  obtain ⟨b, t₄, h₄, hq⟩ := hq.bind
  obtain ⟨close, t₅, h₅, hq⟩ := hq.bind
  obtain ⟨heq, rfl⟩ := hq.ret
  cases heq
  obtain ⟨hopener, hahead₂, hcurrent, -⟩ := h₃.expect (by decide)
  obtain ⟨-, hahead₄, -⟩ := h₅.expectClosing (by decide)
  rw [ahead_of_empty h₄ hb] at hahead₄
  have hlength : t₂.cursor.ahead.length = x.close.length := by
    rw [hahead₂, hahead₄, hgate]
    rfl
  have hlevel := level_echoes hk
  refine Meets.step (advance_echoes (by decide)) hecho hat h₁
    (Nat.le_trans hlength.ge h₂.length_le) fun keyword' s₁ _ hecho₁ => ?_
  refine Meets.step (expression_echoes hlevel) hecho₁ trivial h₂ hlength.ge
    fun cond' s₂ _ hecho₂ => ?_
  obtain ⟨hfacing, -, hbehind⟩ := pass hecho₂ hlength (hcurrent ▸ hopener) (by decide) hk
  rw [run_bind (run_expect_of_facing hfacing)]
  refine (Meets.here hbehind).bind fun b a s' hended ha => ⟨?_, rfl⟩
  subst ha
  exact .while_ (isMissing_ended hended (by decide))

/-- Up to the end of its first block an if statement is read as in the part. -/
lemma ifStat_then_meets {keyword opener close : Token} {cond : Expr} {b : Block}
    (hat : t.cursor.current.kind = .keyword .if_)
    (hq : Quiet (ifStat (level (k + x.gap))) t (.if_ ⟨keyword, cond, opener, b, [], none, close⟩) u)
    (hb : b.stats = []) (hgate : x.close.length = u.cursor.ahead.length + 2)
    (hpresent : ∀ gate ∈ x.rest.head?, gate.isMissing = false) :
    Meets x (Bound x (.if_ ⟨keyword, cond, opener, b, [], none, close⟩))
      ((ifStat (level k)).run s) := by
  obtain ⟨_, t₁, t₂, t₃, t₄, t₅, t₆, h₁, h₂, h₃, h₄, h₅, h₆, h₇⟩ := ifStat_cases hq
  obtain ⟨hopener, hahead₂, hcurrent, -⟩ := h₃.expect (by decide)
  obtain ⟨-, hahead₆, -⟩ := h₇.expectClosing (by decide)
  rw [else_none h₆, elseIfs_none h₅, ahead_of_empty h₄ hb] at hahead₆
  have hlength : t₂.cursor.ahead.length = x.close.length := by
    rw [hahead₂, hahead₆, hgate]
    rfl
  have hlevel := level_echoes hk
  refine Meets.step (advance_echoes (by decide)) hecho hat h₁
    (Nat.le_trans hlength.ge h₂.length_le) fun keyword' s₁ _ hecho₁ => ?_
  refine Meets.step (expression_echoes hlevel) hecho₁ trivial h₂ hlength.ge
    fun cond' s₂ _ hecho₂ => ?_
  obtain ⟨hfacing, hmem, hbehind⟩ := pass hecho₂ hlength (hcurrent ▸ hopener) (by decide) hk
  rw [run_bind (run_expect_of_facing hfacing)]
  refine (Meets.here hbehind).bind fun b a s' hended ha => ⟨?_, rfl⟩
  subst ha
  have hrun : ∀ f : List ElseIf → Option Else → Token → Stat, ((do
      let clauses ← elseIfs (level k) (← remaining)
      let last ← else_ (level k)
      return f clauses last (← expectClosing (.keyword .end_) keyword') : Parse Stat).run s').1
      = f [] none ((expectClosing (.keyword .end_) keyword').run s').1 := by
    intro f
    rw [run_bind (p := remaining) rfl, run_bind (run_elseIfs_ended hended _),
      run_bind (run_else_ended hended)]
    rfl
  rw [hrun]
  exact .then_ (hpresent _ hmem) (isMissing_ended hended (by decide))

lemma ifStat_else_meets {keyword opener second close : Token} {cond : Expr} {first b : Block}
    (hat : t.cursor.current.kind = .keyword .if_)
    (hq : Quiet (ifStat (level (k + x.gap))) t
      (.if_ ⟨keyword, cond, opener, first, [], some ⟨second, b⟩, close⟩) u)
    (hb : b.stats = []) (hgate : x.close.length = u.cursor.ahead.length + 2)
    (hopener : opener.isMissing = false) :
    Meets x (Bound x (.if_ ⟨keyword, cond, opener, first, [], some ⟨second, b⟩, close⟩))
      ((ifStat (level k)).run s) := by
  obtain ⟨_, t₁, t₂, t₃, t₄, t₅, t₆, h₁, h₂, h₃, h₄, h₅, h₆, h₇⟩ := ifStat_cases hq
  obtain ⟨-, hahead₆, -⟩ := h₇.expectClosing (by decide)
  obtain rfl := elseIfs_none h₅
  obtain ⟨v, hat₅, hahead₅, hblock⟩ := else_some h₆
  rw [ahead_of_empty hblock hb] at hahead₆
  have hlength : t₅.cursor.ahead.length = x.close.length := by
    rw [hahead₅, hahead₆, hgate]
    rfl
  have hlevel := level_echoes hk
  have hlength₃ := Nat.le_trans hlength.ge h₄.length_le
  have hlength₂ := Nat.le_trans hlength₃ h₃.length_le
  refine Meets.step (advance_echoes (by decide)) hecho hat h₁
    (Nat.le_trans hlength₂ h₂.length_le) fun keyword' s₁ _ hecho₁ => ?_
  refine Meets.step (expression_echoes hlevel) hecho₁ trivial h₂ hlength₂
    fun cond' s₂ _ hecho₂ => ?_
  refine Meets.step (Echoes.expect (by decide)) hecho₂ trivial h₃ hlength₃
    fun opener' s₃ hopener' hecho₃ => ?_
  refine Meets.trail (blockHere_trails hlevel) hecho₃ trivial h₄ hlength.ge
    (by rw [hat₅]; decide) fun first' s₄ _ hecho₄ => ?_
  obtain ⟨hfacing, -, hbehind⟩ := pass hecho₄ hlength hat₅ (by decide) hk
  have hskip : ∀ bound, (elseIfs (level k) bound).run s₄ = ([], s₄) := by
    intro bound
    cases bound with
    | zero => rfl
    | succ bound => exact run_bind (run_take?_of_not_facing (by rw [hfacing]; decide))
  rw [run_bind (p := remaining) rfl, run_bind (hskip _), else_, bind_assoc,
    run_bind (run_take?_of_facing hfacing), bind_assoc]
  refine (Meets.here hbehind).bind fun b a s' hended ha => ⟨?_, rfl⟩
  subst ha
  refine .else_ ?_ (isMissing_ended hended (by decide))
  rwa [hopener', Displacement.isMissing_token] at hopener

end Statements

/-! ### Loops -/

section Loops

variable {keyword keyword₀ : Token}

lemma declared_numericFor {r r' : NumericFor} (hkeyword : r'.keyword = x.move.token r.keyword)
    (hvar : r'.var = x.move.identifier r.var) :
    (Stat.numericFor r).declared.map x.move.binding = (Stat.numericFor r').declared := by
  simp only [Stat.declared, hkeyword, hvar]
  rfl

lemma declared_genericFor {r r' : GenericFor} (hkeyword : r'.keyword = x.move.token r.keyword)
    (hnames : r'.names = x.move.list x.move.identifier r.names) :
    (Stat.genericFor r).declared.map x.move.binding = (Stat.genericFor r').declared := by
  simp only [Stat.declared, hkeyword, hnames, Displacement.items_list, List.map_map]
  rfl

variable (hk : depth + x.gap + k = maxDepth + 1) (hecho : x.Echo depth s t)
include hk hecho

lemma genericFor_meets {r : GenericFor}
    (hq : Quiet (genericFor (level (k + x.gap)) (x.move.token keyword)) t (.genericFor r) u)
    (hb : r.block.stats = []) (hgate : x.close.length = u.cursor.ahead.length + 2) :
    Meets x (Bound x (.genericFor r)) ((genericFor (level k) keyword).run s) := by
  obtain ⟨_, t₁, t₂, t₃, t₄, t₅, heq, hkeyword, h₁, h₂, h₃, h₄, h₅, h₆⟩ := genericFor_cases hq
  cases heq
  obtain ⟨hopener, hahead₃, hcurrent, -⟩ := h₄.expect (by decide)
  obtain ⟨-, hahead₅, -⟩ := h₆.expectClosing (by decide)
  rw [ahead_of_empty h₅ hb] at hahead₅
  have hlength : t₃.cursor.ahead.length = x.close.length := by
    rw [hahead₃, hahead₅, hgate]
    rfl
  have hlevel := level_echoes hk
  have hlength₂ := Nat.le_trans hlength.ge h₃.length_le
  have hlength₁ := Nat.le_trans hlength₂ h₂.length_le
  refine Meets.step nameList_echoes hecho trivial h₁ hlength₁ fun names s₁ hnames hecho₁ => ?_
  refine Meets.step (Echoes.expect (by decide)) hecho₁ trivial h₂ hlength₂
    fun in_ s₂ _ hecho₂ => ?_
  refine Meets.step (exprList_echoes hlevel) hecho₂ trivial h₃ hlength.ge
    fun exprs s₃ _ hecho₃ => ?_
  obtain ⟨hfacing, -, hbehind⟩ := pass hecho₃ hlength (hcurrent ▸ hopener) (by decide) hk
  rw [run_bind (run_expect_of_facing hfacing)]
  refine (Meets.here hbehind).bind fun b a s' hended ha => ?_
  subst ha
  exact ⟨.genericFor (isMissing_ended hended (by decide)),
    declared_genericFor hkeyword hnames⟩

lemma numericFor_meets {r : NumericFor} (hnext : t.cursor.next.kind = .symbol .eq)
    (hq : Quiet (numericFor (level (k + x.gap)) (x.move.token keyword)) t (.numericFor r) u)
    (hb : r.block.stats = []) (hgate : x.close.length = u.cursor.ahead.length + 2) :
    Meets x (Bound x (.numericFor r)) ((numericFor (level k) keyword).run s) := by
  obtain ⟨_, t₁, t₂, t₃, t₄, t₅, t₆, t₇, t₈, heq, hkeyword, h₁, h₂, h₃, h₄, h₅, h₆, h₇, h₈, h₉⟩ :=
    numericFor_cases hq
  cases heq
  obtain ⟨hopener, hahead₆, hcurrent, -⟩ := h₇.expect (by decide)
  obtain ⟨-, hahead₈, -⟩ := h₉.expectClosing (by decide)
  rw [ahead_of_empty h₈ hb] at hahead₈
  have hlength : t₆.cursor.ahead.length = x.close.length := by
    rw [hahead₆, hahead₈, hgate]
    rfl
  have hlevel := level_echoes hk
  have hlength₅ := Nat.le_trans hlength.ge h₆.length_le
  have hlength₄ := Nat.le_trans hlength₅ h₅.length_le
  have hlength₃ := Nat.le_trans hlength₄ h₄.length_le
  have hlength₂ := Nat.le_trans hlength₃ h₃.length_le
  have hat₁ : t₁.cursor.current.kind = .symbol .eq :=
    (congrArg Token.kind (current_of_identifier h₁)).trans hnext
  refine Meets.step identifier_echoes hecho trivial h₁ (Nat.le_trans hlength₂ h₂.length_le)
    fun var s₁ hvar hecho₁ => ?_
  refine Meets.step (advance_echoes (by decide)) hecho₁ hat₁ h₂ hlength₂
    fun eq s₂ _ hecho₂ => ?_
  refine Meets.step (expression_echoes hlevel) hecho₂ trivial h₃ hlength₃
    fun start s₃ _ hecho₃ => ?_
  refine Meets.step (Echoes.expect (by decide)) hecho₃ trivial h₄ hlength₄
    fun comma s₄ _ hecho₄ => ?_
  refine Meets.step (expression_echoes hlevel) hecho₄ trivial h₅ hlength₅
    fun limit s₅ _ hecho₅ => ?_
  refine Meets.step (step_echoes hlevel) hecho₅ trivial h₆ hlength.ge
    fun last s₆ _ hecho₆ => ?_
  obtain ⟨hfacing, -, hbehind⟩ := pass hecho₆ hlength (hcurrent ▸ hopener) (by decide) hk
  rw [run_bind (run_expect_of_facing hfacing)]
  refine (Meets.here hbehind).bind fun b a s' hended ha => ?_
  subst ha
  exact ⟨.numericFor (isMissing_ended hended (by decide)),
    declared_numericFor hkeyword hvar⟩

omit hk hecho in
/-- Which loop it is shows in the two tokens after its keyword. -/
lemma run_loop {inner : Level} (s : ParseState) : (do
      if (← currentKind) = .ident && (← nextKind) = .symbol .eq then numericFor inner keyword
      else genericFor inner keyword : Parse Stat).run s
    = (if s.cursor.current.kind = .ident ∧ s.cursor.next.kind = .symbol .eq
      then numericFor inner keyword else genericFor inner keyword).run s := by
  have hrun : (do
      if (← currentKind) = .ident && (← nextKind) = .symbol .eq then numericFor inner keyword
      else genericFor inner keyword : Parse Stat).run s
      = (if decide (s.cursor.current.kind = .ident) && decide (s.cursor.next.kind = .symbol .eq)
        then numericFor inner keyword else genericFor inner keyword).run s := rfl
  rw [hrun]
  simp only [Bool.and_eq_true, decide_eq_true_eq]

lemma forStat_meets {a : Stat}
    (hat : t.cursor.current.kind = .keyword .for_)
    (hq : Quiet (forStat (level (k + x.gap))) t a u)
    (hclose : Token.frontKind x.close ≠ .eof) (hlength : x.close.length < t.cursor.ahead.length)
    (hgate : x.close.length = u.cursor.ahead.length + 2)
    (hnumeric : ∀ r, a = .numericFor r → r.block.stats = [])
    (hgeneric : ∀ r, a = .genericFor r → r.block.stats = []) :
    Meets x (Bound x a) ((forStat (level k)).run s) := by
  obtain ⟨keyword₀, t₁, h₁, hq⟩ := hq.bind
  have hlength₁ : x.close.length ≤ t₁.cursor.ahead.length := by
    obtain ⟨rest, hahead⟩ := ahead_of_facing h₁.start hat (by decide)
    have hadvance := Cursor.advance_of_ahead hahead (by rw [hat]; decide)
    rw [h₁.advance.2, hadvance]
    rw [hahead] at hlength
    exact Nat.le_of_lt_succ hlength
  have hq := hq.congr (run_loop t₁)
  refine Meets.step (advance_echoes (by decide)) hecho hat h₁ hlength₁
    fun keyword s₁ hkeyword hecho₁ => ?_
  subst hkeyword
  rw [run_loop]
  have hsame : t₁.cursor.current.kind = .ident →
      s₁.cursor.current.kind = .ident ∧ s₁.cursor.next.kind = t₁.cursor.next.kind := fun hident =>
    ⟨(hecho₁.kind_eq (by rw [hident]; decide)).trans hident,
      (hecho₁.next_eq (by rw [hident]; rfl) hclose).symm⟩
  by_cases hloop : t₁.cursor.current.kind = .ident ∧ t₁.cursor.next.kind = .symbol .eq
  · rw [if_pos hloop] at hq
    rw [if_pos ⟨(hsame hloop.1).1, (hsame hloop.1).2.trans hloop.2⟩]
    obtain ⟨r, _, _, _, _, _, _, _, _, rfl, -⟩ := numericFor_cases hq
    exact numericFor_meets hk hecho₁ hloop.2 hq (hnumeric r rfl) hgate
  · rw [if_neg hloop] at hq
    obtain ⟨r, t₂, _, _, _, _, rfl, -, hnames, -⟩ := genericFor_cases hq
    have hident := facing_of_nameList hnames
    rw [if_neg fun hwhole => hloop ⟨hident, (hsame hident).2 ▸ hwhole.2⟩]
    exact genericFor_meets hk hecho₁ hq (hgeneric r rfl) hgate

end Loops

/-! ### Functions -/

/-- A function that is not closed, with the parameters that it has in the part. -/
structure Body (x : Excerpt) (part : FuncBody) (b : Block) (f : FuncBody) (stop : Offset) :
    Prop where
  block : f.block = b
  close : f.close.isMissing = true
  stop : f.close.span.stop = stop
  declared : f.declared.map x.move.binding = part.declared

section Functions

variable (hk : depth + x.gap + k = maxDepth + 1) (hecho : x.Echo depth s t)
include hk hecho

omit hk hecho in
lemma declared_funcBody {f f' : FuncBody}
    (hparams : f'.params = x.move.list x.move.param f.params) :
    f.declared.map x.move.binding = f'.declared := by
  rw [FuncBody.declared, FuncBody.declared, hparams, Displacement.items_list, List.filterMap_map,
    List.map_filterMap]
  congr 1
  funext p
  cases p <;> rfl

lemma funcBody_meets {keyword keyword₀ : Token} {f : FuncBody}
    (hq : Quiet (funcBody (level (k + x.gap)) keyword₀) t f u) (hb : f.block.stats = [])
    (hgate : x.close.length = u.cursor.ahead.length + 2) :
    Meets x (Body x f) ((funcBody (level k) keyword).run s) := by
  obtain ⟨opening, t₁, h₁, hq⟩ := hq.bind
  obtain ⟨params, t₂, h₂, hq⟩ := hq.bind
  obtain ⟨closing, t₃, h₃, hq⟩ := hq.bind
  obtain ⟨b, t₄, h₄, hq⟩ := hq.bind
  obtain ⟨close, t₅, h₅, hq⟩ := hq.bind
  obtain ⟨rfl, rfl⟩ := hq.ret
  obtain ⟨hclosing, hahead₂, hcurrent, -⟩ := h₃.expect (by decide)
  obtain ⟨-, hahead₄, -⟩ := h₅.expectClosing (by decide)
  rw [ahead_of_empty h₄ hb] at hahead₄
  have hlength : t₂.cursor.ahead.length = x.close.length := by
    rw [hahead₂, hahead₄, hgate]
    rfl
  refine Meets.step (Echoes.expect (by decide)) hecho trivial h₁
    (Nat.le_trans hlength.ge h₂.length_le) fun opening' s₁ _ hecho₁ => ?_
  refine Meets.step parameterList_echoes hecho₁ trivial h₂ hlength.ge
    fun params' s₂ hparams hecho₂ => ?_
  obtain ⟨hfacing, -, hbehind⟩ := pass hecho₂ hlength (hcurrent ▸ hclosing) (by decide) hk
  rw [run_bind (run_expect_of_facing hfacing)]
  refine (Meets.here hbehind).bind fun b a s' hended ha => ?_
  subst ha
  have hclose := run_expectClosing_ended hended (by decide : TokenKind.keyword .end_ ≠ .eof) keyword
  exact ⟨rfl, isMissing_ended hended (by decide), congrArg (·.span.stop) hclose,
    declared_funcBody hparams⟩

lemma functionStat_meets {keyword : Token} {name : Expr} {method : Option MethodName}
    {f : FuncBody} (hat : t.cursor.current.kind = .keyword .function_)
    (hq : Quiet (functionStat (level (k + x.gap))) t (.function keyword name method f) u)
    (hb : f.block.stats = []) (hgate : x.close.length = u.cursor.ahead.length + 2) :
    Meets x (Bound x (.function keyword name method f))
      ((functionStat (level k)).run s) := by
  obtain ⟨keyword, t₁, h₁, hq⟩ := hq.bind
  obtain ⟨name, t₂, h₂, hq⟩ := hq.bind
  obtain ⟨checked, t₃, h₃, hq⟩ := hq.bind
  obtain ⟨method, t₄, h₄, hq⟩ := hq.bind
  obtain ⟨f, t₅, h₅, hq⟩ := hq.bind
  obtain ⟨heq, rfl⟩ := hq.ret
  cases heq
  have hlevel := level_echoes hk
  have hlength₄ := body_length_le h₅ hgate
  have hlength₃ := Nat.le_trans hlength₄ h₄.length_le
  have hlength₂ := Nat.le_trans hlength₃ h₃.length_le
  refine Meets.step (advance_echoes (by decide)) hecho hat h₁
    (Nat.le_trans hlength₂ h₂.length_le) fun keyword' s₁ hkeyword hecho₁ => ?_
  refine Meets.step (functionName_echoes hlevel) hecho₁ trivial h₂ hlength₂
    fun name' s₂ hname hecho₂ => ?_
  subst hname
  refine Meets.step checkName_echoes hecho₂ trivial h₃ hlength₃ fun _ s₃ _ hecho₃ => ?_
  refine Meets.step methodName_echoes hecho₃ trivial h₄ hlength₄
    fun method' s₄ hmethod hecho₄ => ?_
  refine (funcBody_meets hk hecho₄ h₅ hb hgate).bind fun b f' s' hended hf => ?_
  obtain ⟨rfl, hclose, -, hdeclared⟩ := hf
  refine ⟨.function hclose, ?_⟩
  change (method'.toList.map (Binding.self keyword') ++ f'.declared).map x.move.binding
    = method.toList.map (.self keyword) ++ f.declared
  rw [List.map_append, hdeclared, hmethod, hkeyword]
  cases method' <;> rfl

lemma localFunction_meets {keyword second : Token} {name : Identifier} {f : FuncBody}
    (hat : t.cursor.current.kind = .keyword .local_)
    (hnext : t.cursor.next.kind = .keyword .function_)
    (hq : Quiet (localFunction (level (k + x.gap))) t (.localFunction keyword second name f) u)
    (hb : f.block.stats = []) (hgate : x.close.length = u.cursor.ahead.length + 2) :
    Meets x (Bound x (.localFunction keyword second name f))
      ((localFunction (level k)).run s) := by
  obtain ⟨keyword, t₁, h₁, hq⟩ := hq.bind
  obtain ⟨second, t₂, h₂, hq⟩ := hq.bind
  obtain ⟨name, t₃, h₃, hq⟩ := hq.bind
  obtain ⟨f, t₄, h₄, hq⟩ := hq.bind
  obtain ⟨heq, rfl⟩ := hq.ret
  cases heq
  have hlength₃ := body_length_le h₄ hgate
  have hlength₂ := Nat.le_trans hlength₃ h₃.length_le
  have hat₁ : t₁.cursor.current.kind = .keyword .function_ := by
    rw [h₁.advance.2, current_advance h₁.start (by rw [hat]; decide)]
    exact hnext
  refine Meets.step (advance_echoes (by decide)) hecho hat h₁
    (Nat.le_trans hlength₂ h₂.length_le) fun keyword' s₁ hkeyword hecho₁ => ?_
  refine Meets.step (advance_echoes (by decide)) hecho₁ hat₁ h₂ hlength₂
    fun second' s₂ _ hecho₂ => ?_
  refine Meets.step identifier_echoes hecho₂ trivial h₃ hlength₃ fun name' s₃ hname hecho₃ => ?_
  refine (funcBody_meets hk hecho₃ h₄ hb hgate).bind fun b f' s' hended hf => ?_
  obtain ⟨rfl, hclose, -, hdeclared⟩ := hf
  refine ⟨.localFunction hclose, ?_⟩
  change (Binding.named .localFunction keyword' name' :: f'.declared).map x.move.binding
    = .named .localFunction keyword name :: f.declared
  rw [List.map_cons, hdeclared, hname, hkeyword]
  rfl

/-- A function as an expression. -/
def Anonymous (x : Excerpt) (part : FuncBody) (b : Block) (e : Expr) (stop : Offset) : Prop :=
  ∃ keyword f, e = .function keyword f ∧ Body x part b f stop

lemma expression_meets {keyword : Token} {f : FuncBody}
    (hq : Quiet (level (k + x.gap)).expression t (.function keyword f) u) (hb : f.block.stats = [])
    (hgate : x.close.length = u.cursor.ahead.length + 2) :
    Meets x (Anonymous x f) ((level k).expression.run s) := by
  cases k with
  | zero =>
    have hdepth := hecho.depth_whole
    have hlimit := hecho.whole.depth
    omega
  | succ k =>
    rw [Nat.succ_add] at hq
    obtain ⟨v, v', hdepth, hat, h₁, h₂, rfl⟩ := function_cases hq
    have hrun : (level (k + 1)).expression.run s
        = (Parse.nested (cutOff none) (operand (level k) >>= (level k).operators 0)).run s := rfl
    have hinside : depth + 1 + x.gap + k = maxDepth + 1 := by omega
    rw [hrun]
    refine Meets.nested hecho hdepth fun hecho₀ => ?_
    have hoperand : Meets x (Anonymous x f)
        ((operand (level k)).run { s with depth := s.depth + 1 }) := by
      have hfacing := (hecho₀.kind_eq (by rw [hat]; decide)).trans hat
      rw [run_operand_function hfacing]
      refine Meets.step (advance_echoes (by decide)) hecho₀ hat h₁ (body_length_le h₂ hgate)
        fun keyword' s₁ _ hecho₁ => ?_
      exact (funcBody_meets hinside hecho₁ h₂ hb hgate).bind fun b f' s' _ hf =>
        ⟨_, _, rfl, hf⟩
    refine hoperand.bind fun b e s' hended he => ?_
    rw [run_operators_ended hended]
    exact he

/-- A list of one function. -/
def Alone (x : Excerpt) (part : FuncBody) (b : Block) (l : Separated Expr) (stop : Offset) : Prop :=
  ∃ keyword f anchor, l = ⟨[⟨.function keyword f, none⟩], anchor⟩ ∧ Body x part b f stop

lemma exprList_meets {keyword : Token} {f : FuncBody} {anchor : Offset}
    (hq : Quiet (level (k + x.gap)).exprList t ⟨[⟨.function keyword f, none⟩], anchor⟩ u)
    (hb : f.block.stats = []) (hgate : x.close.length = u.cursor.ahead.length + 2) :
    Meets x (Alone x f) ((level k).exprList.run s) := by
  have hfunction := exprList_single hq
  have hexpr := expression_meets hk hecho hfunction hb hgate
  have hrun : (level k).exprList.run s = ((level k).expression
      >>= itemsAfter (level k).expression s.cursor.lastStop).run s := rfl
  rw [hrun]
  refine hexpr.bind fun b e s' hended he => ?_
  obtain ⟨keyword', f', rfl, hf⟩ := he
  have hitems : (itemsAfter (level k).expression s.cursor.lastStop (.function keyword' f')).run s'
      = (⟨[⟨.function keyword' f', none⟩], s.cursor.lastStop⟩, s') := run_moreItems_ended hended
  rw [hitems]
  exact ⟨_, _, _, rfl, hf⟩

/-- The values of a declaration. -/
lemma assignedValues_meets {eq eq₀ keyword : Token} {f : FuncBody} {anchor : Offset}
    (hq : Quiet (assignedValues (level (k + x.gap)) eq₀) t
      ⟨[⟨.function keyword f, none⟩], anchor⟩ u) (hb : f.block.stats = [])
    (hgate : x.close.length = u.cursor.ahead.length + 2) :
    Meets x (Alone x f) ((assignedValues (level k) eq).run s) := by
  have hvalues := exprList_meets hk hecho (exprList_of_assigned hq) hb hgate
  have hrun : ((level k).exprList.run s).2.cursor.current.kind = .eof →
      (assignedValues (level k) eq).run s = (level k).exprList.run s := fun heof => by
    rw [run_assignedValues, if_neg (by simp [heof])]
  refine hvalues.onto (fun hgave => ?_) fun hended => ?_
  · have heof := (((exprList_steady.onward s).valid hecho.whole).gaveUp hgave.tooDeep).1
    rwa [hrun heof]
  · rw [hrun hended.eof]
    exact ⟨hended.refl, fun _ => id⟩

lemma localStat_meets {keyword eq second : Token} {names : Separated Identifier} {f : FuncBody}
    {anchor : Offset} (hat : t.cursor.current.kind = .keyword .local_)
    (hq : Quiet (localStat (level (k + x.gap))) t
      (.local_ keyword names (some eq) ⟨[⟨.function second f, none⟩], anchor⟩) u)
    (hb : f.block.stats = []) (hgate : x.close.length = u.cursor.ahead.length + 2)
    (heq : eq.isMissing = false) :
    Meets x (Bound x (.local_ keyword names (some eq) ⟨[⟨.function second f, none⟩], anchor⟩))
      ((localStat (level k)).run s) := by
  obtain ⟨keyword, names, t₁, t₂, h₁, h₂,
    ⟨values, hnone⟩ | ⟨eq, values, t₃, hsame, hat₂, hadvance, h₄⟩⟩ := localStat_cases hq
  · cases hnone
  cases hsame
  have hlength₃ := function_length_le (exprList_single (exprList_of_assigned h₄)) hgate
  have hlength₂ := Nat.le_trans hlength₃ hadvance.length_le
  refine Meets.cases (fun _ => Steady.cases fun _ => declaredValues_steady)
    (advance_echoes (by decide)) hecho hat h₁ (Nat.le_trans hlength₂ h₂.length_le)
    fun keyword' s₁ _ hecho₁ => ?_
  refine Meets.cases (fun _ => declaredValues_steady) nameList_echoes hecho₁ trivial h₂ hlength₂
    fun names' s₂ _ hecho₂ => ?_
  have hfacing := (hecho₂.kind_eq (by rw [hat₂]; decide)).trans hat₂
  rw [run_take?_bind hfacing]
  refine Meets.step (advance_echoes (by decide)) hecho₂ hat₂ hadvance hlength₃
    fun eq' s₃ heq' hecho₃ => ?_
  refine (assignedValues_meets hk hecho₃ h₄ hb hgate).bind fun b l s' _ hl => ?_
  obtain ⟨second', f', anchor', rfl, rfl, hclose, -, hdeclared⟩ := hl
  refine ⟨.value ?_ hclose, hdeclared⟩
  rwa [heq', Displacement.isMissing_token] at heq

/-- The arguments of a call that is not closed. -/
def Passed (x : Excerpt) (part : FuncBody) (b : Block) (args : CallArgs) (stop : Offset) : Prop :=
  ∃ opening l closing, args = .paren opening l closing ∧ opening.isMissing = false
    ∧ Alone x part b l stop ∧ closing.span.stop = stop

lemma callArgs_meets {opening second closing : Token} {f : FuncBody} {anchor : Offset}
    (hq : Quiet (callArgs (level (k + x.gap))) t
      (.paren opening ⟨[⟨.function second f, none⟩], anchor⟩ closing) u)
    (hb : f.block.stats = []) (hgate : x.close.length = u.cursor.ahead.length + 3)
    (hopening : opening.isMissing = false) :
    Meets x (Passed x f) ((callArgs (level k)).run s) := by
  obtain ⟨t₁, t₂, hat, h₁, h₂, h₃⟩ := callArgs_cases hq
  obtain ⟨-, hahead₂, -⟩ := h₃.expectClosing (by decide)
  have hvalues := argList_cases h₂
  have hfunction := exprList_single hvalues
  have hgate₂ : x.close.length = t₂.cursor.ahead.length + 2 := by
    rw [hahead₂, hgate]
    rfl
  have hat₁ := facing_of_function hfunction
  have hfacing := (hecho.kind_eq (by rw [hat]; decide)).trans hat
  rw [callArgs, run_currentKind, hfacing]
  refine Meets.step (advance_echoes (by decide)) hecho hat h₁ (function_length_le hfunction hgate₂)
    fun opening' s₁ hopening' hecho₁ => ?_
  have hfacing₁ := (hecho₁.kind_eq (by rw [hat₁]; decide)).trans hat₁
  have hrun : (argList (level k)).run s₁ = (level k).exprList.run s₁ := by
    have hrun : (argList (level k)).run s₁
        = (if decide (s₁.cursor.current.kind = .symbol .closeParen) then (do
            return .empty (← lastStop)) else (level k).exprList).run s₁ := rfl
    rw [hrun, hfacing₁]
    rfl
  refine Meets.bind (hrun ▸ exprList_meets hk hecho₁ hvalues hb hgate₂) fun b l s' hended hl => ?_
  have hclosing := run_expectClosing_ended hended
    (by decide : TokenKind.symbol .closeParen ≠ .eof) opening'
  refine ⟨_, _, _, rfl, ?_, hl, congrArg (·.span.stop) hclosing⟩
  rwa [hopening', Displacement.isMissing_token] at hopening

/-- A call that is not closed, with the function as its only argument. -/
def Calls (x : Excerpt) (part : FuncBody) (b : Block) (e : Expr) (stop : Offset) : Prop :=
  ∃ callee args, e = .call (.name callee) args ∧ Passed x part b args stop

lemma suffixed_meets {callee : Identifier} {opening second closing : Token} {f : FuncBody}
    {anchor : Offset} (hat : t.cursor.current.kind = .ident)
    (hq : Quiet (suffixed (level (k + x.gap)) true) t
      (.call (.name callee) (.paren opening ⟨[⟨.function second f, none⟩], anchor⟩ closing)) u)
    (hb : f.block.stats = []) (hgate : x.close.length = u.cursor.ahead.length + 3)
    (hopening : opening.isMissing = false) :
    Meets x (Calls x f) ((suffixed (level k) true).run s) := by
  cases k with
  | zero =>
    have hdepth := hecho.depth_whole
    have hlimit := hecho.whole.depth
    omega
  | succ k =>
    have hlevel := level_echoes hk
    rw [Nat.succ_add] at hq hlevel
    obtain ⟨v, w, hprimary, hdepth, hargs, rfl⟩ := suffixed_cases hat hq
    obtain ⟨_, _, hat₁, -⟩ := callArgs_cases hargs
    have hlength := args_length_le hargs hgate
    refine Meets.step (primary_echoes hlevel) hecho trivial hprimary hlength
      fun base s₁ hbase hecho₁ => ?_
    obtain ⟨callee', rfl⟩ : ∃ callee', base = .name callee' := by
      cases base <;> simp [Displacement.expr] at hbase
      exact ⟨_, rfl⟩
    have hat₁ : v.cursor.current.kind = .symbol .openParen := hat₁
    have hfacing₁ := (hecho₁.kind_eq (by rw [hat₁]; decide)).trans hat₁
    have hrun : ((level (k + 1)).suffixes true (.name callee')).run s₁
        = (Parse.nested (cutOff (some (.name callee'))) (do
            (level k).suffixes true (← suffix (level k) (.name callee')))).run s₁ := by
      have hrun : ((level (k + 1)).suffixes true (.name callee')).run s₁
          = (suffixesAround (level k) true (.name callee')).run s₁ := rfl
      rw [hrun, suffixesAround, run_currentKind, hfacing₁]
      rfl
    have hinside : depth + 1 + x.gap + k = maxDepth + 1 := by omega
    rw [hrun]
    refine Meets.nested hecho₁ hdepth fun hecho₂ => ?_
    have hsuffix : Meets x (Calls x f)
        ((suffix (level k) (.name callee')).run { s₁ with depth := s₁.depth + 1 }) := by
      have hrun : (suffix (level k) (.name callee')).run { s₁ with depth := s₁.depth + 1 }
          = (do return .call (.name callee') (← callArgs (level k)) : Parse Expr).run
            { s₁ with depth := s₁.depth + 1 } := by
        have hfacing₂ : { s₁ with depth := s₁.depth + 1 : ParseState }.cursor.current.kind
          = .symbol .openParen := hfacing₁
        rw [suffix, run_currentKind, hfacing₂]
      rw [hrun]
      exact (callArgs_meets hinside hecho₂ hargs hb hgate hopening).bind fun b args s' _ hargs =>
        ⟨_, _, rfl, hargs⟩
    refine hsuffix.bind fun b e s' hended he => ?_
    rw [run_suffixes_ended hended]
    exact he

lemma exprStat_meets {callee : Identifier} {opening second closing : Token} {f : FuncBody}
    {anchor : Offset} (hat : t.cursor.current.kind = .ident)
    (hq : Quiet (exprStat (level (k + x.gap))) t (.call
      (.call (.name callee) (.paren opening ⟨[⟨.function second f, none⟩], anchor⟩ closing))) u)
    (hb : f.block.stats = []) (hgate : x.close.length = u.cursor.ahead.length + 3)
    (hopening : opening.isMissing = false) :
    Meets x (Bound x (.call (.call (.name callee)
      (.paren opening ⟨[⟨.function second f, none⟩], anchor⟩ closing))))
      ((exprStat (level k)).run s) := by
  have hcall := suffixed_meets hk hecho hat (exprStat_cases hq) hb hgate hopening
  refine hcall.bind_cases (fun e => Steady.cases fun kind => ?_) fun b e s' hended he => ?_
  · split <;> infer_instance
  obtain ⟨callee', args, rfl, opening', l, closing', rfl, hopening', hl, hclosing⟩ := he
  obtain ⟨second', f', anchor', rfl, rfl, hclose, hstop, hdeclared⟩ := hl
  rw [run_currentKind, hended.eof]
  exact ⟨.argument hopening' hclose (hclosing.trans hstop.symm), hdeclared⟩

end Functions

end Grammar

end LuaFront
