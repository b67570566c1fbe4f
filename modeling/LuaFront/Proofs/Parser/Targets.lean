import LuaFront.Proofs.Parser.Returns
import LuaFront.Proofs.Parser.Speculation

/-!
What stands before an equals sign. A statement that has an equals sign begins with targets, or with
the names of a declaration; what is read of it after its equals sign depends on nothing else.
-/

namespace LuaFront

/-- What stands before an equals sign: targets to assign to, or names to declare. -/
inductive Targets
  | assigned (list : Separated Expr)
  | declared (keyword : Token) (names : Separated Identifier)

namespace Targets

/-- The statement, with its equals sign and values. -/
def stat (eq : Token) (values : Separated Expr) : Targets → Stat
  | assigned list => .assign list eq values
  | declared keyword names => .local_ keyword names (some eq) values

variable {targets other : Targets} {eq eq' : Token} {values values' : Separated Expr}

lemma stat_inj (h : targets.stat eq values = other.stat eq' values') :
    targets = other ∧ eq = eq' ∧ values = values' := by
  cases targets <;> cases other <;> cases h <;> exact ⟨rfl, rfl, rfl⟩

lemma isReturn_stat : (targets.stat eq values).isReturn = false := by
  cases targets <;> rfl

end Targets

/-- Targets that stand somewhere else. -/
def Displacement.targets (m : Displacement) : Targets → Targets
  | .assigned list => .assigned (m.list m.expr list)
  | .declared keyword names => .declared (m.token keyword) (m.list m.identifier names)

lemma Displacement.stat_targets (m : Displacement) (targets : Targets) (eq : Token)
    (values : Separated Expr) :
    m.stat (targets.stat eq values)
      = (m.targets targets).stat (m.token eq) (m.list m.expr values) := by
  cases targets <;> simp [Targets.stat, Displacement.targets, Displacement.stat]

/-- The equals sign of an assignment or a declaration. -/
def Stat.sign? : Stat → Option Token
  | .assign _ eq _ => some eq
  | .local_ _ _ eq _ => eq
  | _ => none

lemma Targets.sign?_stat (targets : Targets) (eq : Token) (values : Separated Expr) :
    (targets.stat eq values).sign? = some eq := by
  cases targets <;> rfl

namespace Grammar

open Parse ParseState TokenKind

variable {l : Level} {s : ParseState} {kind : TokenKind}

/-! ### Reading targets -/

def targetList (l : Level) : Parse (Separated Expr) := do
  let first ← suffixed l true
  itemsAfter (suffixed l true) (Node.ofExpr first).span.start first

/-- Whatever stands before an equals sign. -/
def targets (l : Level) : Parse Targets := do
  if ← atKind (.keyword .local_) then
    let keyword ← advance
    return .declared keyword (← nameList)
  else
    let list ← targetList l
    checkTargets list.items
    return .assigned list

/-- Whether targets begin at a token depends on its kind and that of the next one. -/
def BeginTargets (kind next : TokenKind) : Prop :=
  kind = .ident ∨ kind = .symbol .openParen
    ∨ kind = .keyword .local_ ∧ next ≠ .keyword .function_

lemma BeginTargets.not_ends {next : TokenKind} (h : BeginTargets kind next) :
    kind.endsBlock = false := by
  rcases h with rfl | rfl | ⟨rfl, -⟩ <;> rfl

lemma run_expect_of_facing (h : s.cursor.current.kind = kind) :
    (expect kind).run s = advance.run s := by
  rw [expect, run_bind (run_take?_of_facing h)]
  rfl

lemma run_checkTargets_cursor {list : List Expr} :
    ((checkTargets list).run s).2.cursor = s.cursor := by
  induction list generalizing s with
  | nil => rfl
  | cons e list ih =>
    have hrun : ∀ wrong, ((errorIf wrong (Node.ofExpr e).span
        "cannot assign to this expression").run s).2.cursor = s.cursor := by
      intro wrong
      cases wrong with
      | false => rfl
      | true => rw [errorIf, if_pos rfl, run_error_eq]
    rw [checkTargets, StateT.run_bind]
    exact ih.trans (hrun _)

lemma run_targets_assigned (h : s.cursor.current.kind ≠ .keyword .local_) :
    (targets l).run s = (let r := (targetList l).run s
      (.assigned r.1, ((checkTargets r.1.items).run r.2).2)) := by
  rw [targets, run_atKind, decide_eq_false h]
  rfl

lemma run_targets_declared (h : s.cursor.current.kind = .keyword .local_) :
    (targets l).run s = (let r := nameList.run { s with cursor := s.cursor.advance }
      (.declared s.cursor.current r.1, r.2)) := by
  rw [targets, run_atKind, decide_eq_true h]
  rfl

/-- An assignment begins with its targets. -/
lemma run_assignment {list : Separated Expr} {u : ParseState}
    (hlist : (targetList l).run s = (list, u)) :
    (assignment l ((suffixed l true).run s).1).run ((suffixed l true).run s).2
      = (do
          let eq ← expect (.symbol .eq)
          return .assign list eq (← assignedValues l eq) : Parse Stat).run
            ((checkTargets list.items).run u).2 := by
  have hitems : (itemsAfter (suffixed l true)
      (Node.ofExpr ((suffixed l true).run s).1).span.start ((suffixed l true).run s).1).run
        ((suffixed l true).run s).2 = (list, u) := hlist
  rw [assignment, run_bind hitems]
  rfl

/-! ### Statements with an equals sign -/

/-- Targets and values. -/
def signed (l : Level) : Parse Stat := do
  let t ← targets l
  let eq ← advance
  return t.stat eq (← assignedValues l eq)

/-- Where an equals sign comes after targets, it comes after the first one, or a comma does. -/
lemma facing_of_targets (h : s.cursor.current.kind ≠ .keyword .local_)
    (hsign : ((targets l).run s).2.cursor.current.kind = .symbol .eq) :
    ((targetList l).run s).2.cursor.current.kind = .symbol .eq
      ∧ (((suffixed l true).run s).2.cursor.current.kind = .symbol .comma
        ∨ ((suffixed l true).run s).2.cursor.current.kind = .symbol .eq) := by
  simp only [run_targets_assigned h, run_checkTargets_cursor] at hsign
  exact ⟨hsign, facing_of_moreItems hsign⟩

lemma run_expect_bind_report {α : Type} {f : Token → Parse α} [hf : ∀ t, Steady (f t)]
    (hs : s.Valid) (h : s.cursor.current.kind ≠ kind) :
    ((expect kind >>= f).run s).2.log.entries ≠ [] := by
  rw [StateT.run_bind, expect, run_bind (run_take?_of_not_facing h)]
  refine Steady.log_ne_nil (f _) (run_errorExpected_ne_nil fun hgave => ?_)
  exact (hs.gaveUp hgave).2

lemma run_exprStat_signed (h : s.cursor.current.kind ≠ .keyword .local_)
    (hsign : ((targets l).run s).2.cursor.current.kind = .symbol .eq) :
    (exprStat l).run s = (signed l).run s := by
  obtain ⟨-, hfirst⟩ := facing_of_targets h hsign
  obtain ⟨r, hr⟩ : ∃ r, (suffixed l true).run s = r := ⟨_, rfl⟩
  have hassignment : (exprStat l).run s = (assignment l r.1).run r.2 := by
    rw [exprStat, run_bind hr, run_currentKind]
    rw [hr] at hfirst
    rcases hfirst with hkind | hkind <;> rw [hkind]
  obtain ⟨⟨list, u⟩, hlist⟩ : ∃ r, (targetList l).run s = r := ⟨_, rfl⟩
  obtain ⟨c, hc⟩ : ∃ c, ((checkTargets list.items).run u).2 = c := ⟨_, rfl⟩
  have htargets : (targets l).run s = (.assigned list, c) := by
    rw [run_targets_assigned h, hlist, ← hc]
  rw [htargets] at hsign
  have hexpect : (expect (.symbol .eq)).run c
      = (c.cursor.current, { c with cursor := c.cursor.advance }) :=
    (run_expect_of_facing hsign).trans (run_advance c)
  rw [hassignment, ← hr, run_assignment hlist, hc, run_bind hexpect, signed, run_bind htargets,
    run_bind (run_advance c)]
  rfl

lemma run_localStat_signed (h : s.cursor.current.kind = .keyword .local_)
    (hsign : ((targets l).run s).2.cursor.current.kind = .symbol .eq) :
    (localStat l).run s = (signed l).run s := by
  obtain ⟨r, hr⟩ : ∃ r, nameList.run { s with cursor := s.cursor.advance } = r := ⟨_, rfl⟩
  have htargets : (targets l).run s = (.declared s.cursor.current r.1, r.2) := by
    rw [run_targets_declared h, hr]
  rw [htargets] at hsign
  rw [localStat, run_bind (run_advance s), run_bind hr, run_bind (run_take?_of_facing hsign),
    signed, run_bind htargets]
  rfl

/-- A statement that begins with targets and an equals sign. -/
lemma run_statement_signed (hbegin : BeginTargets s.cursor.current.kind s.cursor.next.kind)
    (hsign : ((targets l).run s).2.cursor.current.kind = .symbol .eq) :
    (statement l).run s = (signed l).run s := by
  rw [statement, run_currentKind]
  rcases hbegin with hkind | hkind | ⟨hkind, hnext⟩
  · rw [hkind]
    exact run_exprStat_signed (by simp [hkind]) hsign
  · rw [hkind]
    exact run_exprStat_signed (by simp [hkind]) hsign
  · rw [← run_localStat_signed hkind hsign, hkind]
    dsimp only
    rw [run_nextKind, if_neg hnext]

/-! ### What has an equals sign -/

section Sign

variable [l.Steady]

instance targetList_steady : Steady (targetList l) := Steady.bind

instance targets_steady : Steady (targets l) := by
  refine Steady.cases fun found => ?_
  split <;> infer_instance

/-- Other statements have no equals sign. -/
lemma statement_unsigned (hkind : kind ≠ .ident ∧ kind ≠ .symbol .openParen
      ∧ kind ≠ .keyword .local_) (h : s.cursor.current.kind = kind) :
    ((statement l).run s).1.sign? = none := by
  rw [statement, run_currentKind, h]
  refine (?_ : Returns s.depth _ fun a : Stat => a.sign? = none) s (.at_depth s)
  split
  · exact .any fun _ => .ret rfl
  · iterate 8 refine .any fun _ => ?_
    exact .ret rfl
  · iterate 5 refine .any fun _ => ?_
    exact .ret rfl
  · exact .any fun _ => .any fun _ => .any fun _ => .ret rfl
  · refine .any fun _ => .any fun _ => .any fun _ => .ite ?_ ?_
    · iterate 9 refine .any fun _ => ?_
      exact .ret rfl
    · iterate 6 refine .any fun _ => ?_
      exact .ret rfl
  · exact .any fun _ => .any fun _ => .any fun _ => .any fun _ => .ret rfl
  · iterate 5 refine .any fun _ => ?_
    exact .ret rfl
  · exact absurd rfl hkind.2.2
  · exact .any fun _ => .any fun _ => .any fun _ => .ret rfl
  · exact .any fun _ => .any fun _ => .any fun _ => .ret rfl
  · exact .any fun _ => .ret rfl
  · exact .any fun _ => .any fun _ => .ret rfl
  · exact absurd rfl hkind.1
  · exact absurd rfl hkind.2.1
  · exact .any fun _ => .ret rfl
  · exact .ite (.any fun _ => .any fun _ => .ret rfl) (.any fun _ => .any fun _ => .ret rfl)

lemma localFunction_unsigned : ((localFunction l).run s).1.sign? = none := by
  refine (?_ : Returns s.depth _ fun a : Stat => a.sign? = none) s (.at_depth s)
  exact .any fun _ => .any fun _ => .any fun _ => .any fun _ => .ret rfl

omit [l.Steady] in
lemma localStat_signed (h : s.cursor.current.kind = .keyword .local_)
    (hsign : ((localStat l).run s).1.sign? ≠ none) :
    ((targets l).run s).2.cursor.current.kind = .symbol .eq := by
  obtain ⟨r, hr⟩ : ∃ r, nameList.run { s with cursor := s.cursor.advance } = r := ⟨_, rfl⟩
  rw [run_targets_declared h, hr]
  by_contra hnone
  rw [localStat, run_bind (run_advance s), run_bind hr, run_bind (run_take?_of_not_facing hnone)]
    at hsign
  exact hsign rfl

lemma exprStat_signed (hs : s.Valid) (h : s.cursor.current.kind ≠ .keyword .local_)
    (hsign : ((exprStat l).run s).1.sign? ≠ none)
    (hlog : ((exprStat l).run s).2.log.entries = []) :
    ((targets l).run s).2.cursor.current.kind = .symbol .eq := by
  obtain ⟨r, hr⟩ : ∃ r, (suffixed l true).run s = r := ⟨_, rfl⟩
  have hassignment : (exprStat l).run s = (assignment l r.1).run r.2 := by
    rw [exprStat, run_bind hr, run_currentKind] at hsign ⊢
    split at hsign
    iterate 2 rfl
    split at hsign <;> exact absurd rfl hsign
  obtain ⟨⟨list, u⟩, hlist⟩ : ∃ r, (targetList l).run s = r := ⟨_, rfl⟩
  obtain ⟨c, hc⟩ : ∃ c, ((checkTargets list.items).run u).2 = c := ⟨_, rfl⟩
  have htargets : ((targets l).run s).2 = c := by
    rw [run_targets_assigned h, hlist, ← hc]
  rw [htargets]
  by_contra hnone
  have hvalid : c.Valid := htargets ▸ (targets_steady.onward s).valid hs
  rw [hassignment, ← hr, run_assignment hlist, hc] at hlog
  exact run_expect_bind_report hvalid hnone hlog

/-- A statement that has an equals sign, and about which nothing is reported. -/
lemma statement_signed (hs : s.Valid) (hsign : ((statement l).run s).1.sign? ≠ none)
    (hlog : ((statement l).run s).2.log.entries = []) :
    BeginTargets s.cursor.current.kind s.cursor.next.kind
      ∧ ((targets l).run s).2.cursor.current.kind = .symbol .eq := by
  by_cases hident : s.cursor.current.kind = .ident
  · rw [statement, run_currentKind, hident] at hsign hlog
    exact ⟨.inl hident, exprStat_signed hs (by simp [hident]) hsign hlog⟩
  by_cases hparen : s.cursor.current.kind = .symbol .openParen
  · rw [statement, run_currentKind, hparen] at hsign hlog
    exact ⟨.inr (.inl hparen), exprStat_signed hs (by simp [hparen]) hsign hlog⟩
  by_cases hlocal : s.cursor.current.kind = .keyword .local_
  · rw [statement, run_currentKind, hlocal] at hsign
    dsimp only at hsign
    rw [run_nextKind] at hsign
    split at hsign
    · exact absurd localFunction_unsigned hsign
    · next hnext => exact ⟨.inr (.inr ⟨hlocal, hnext⟩), localStat_signed hlocal hsign⟩
  exact absurd (statement_unsigned ⟨hident, hparen, hlocal⟩ rfl) hsign

variable {t : Targets} {eq : Token} {values : Separated Expr} {u : ParseState}

/-- What is read of a statement with an equals sign, about which nothing is reported. -/
structure Signed (l : Level) (s : ParseState) (t : Targets) (c : ParseState) : Prop where
  begins : BeginTargets s.cursor.current.kind s.cursor.next.kind
  run : (targets l).run s = (t, c)
  valid : c.Valid
  depth : c.depth = s.depth
  log : c.log.entries = []
  sign : c.cursor.current.kind = .symbol .eq

omit [l.Steady] in
lemma run_signed (h : (targets l).run s = (t, u)) :
    (signed l).run s
      = (let r := (assignedValues l u.cursor.current).run { u with cursor := u.cursor.advance }
        (t.stat u.cursor.current r.1, r.2)) := by
  rw [signed, run_bind h]
  rfl

lemma statement_parts (hs : s.Valid) (h : (statement l).run s = (t.stat eq values, u))
    (hlog : u.log.entries = []) :
    ∃ c, Signed l s t c ∧ c.cursor.current = eq
      ∧ (assignedValues l eq).run { c with cursor := c.cursor.advance } = (values, u) := by
  have hsigned : ((statement l).run s).1.sign? ≠ none := by simp [h, Targets.sign?_stat]
  obtain ⟨hbegin, hsign⟩ := statement_signed hs hsigned (by rw [h, hlog])
  obtain ⟨⟨t', c⟩, hc⟩ : ∃ r, (targets l).run s = r := ⟨_, rfl⟩
  have honward := (targets_steady (l := l)).onward s
  rw [hc] at hsign honward
  rw [run_statement_signed hbegin (by rw [hc, hsign]), run_signed hc] at h
  obtain ⟨hstat, hstate⟩ := Prod.mk.inj h
  obtain ⟨rfl, rfl, rfl⟩ := Targets.stat_inj hstat
  refine ⟨c, ⟨hbegin, hc, honward.valid hs, honward.depth, ?_, hsign⟩, rfl, Prod.ext rfl hstate⟩
  have hvalues := Steady.onward (p := assignedValues l c.cursor.current)
    { c with cursor := c.cursor.advance }
  rw [hstate] at hvalues
  exact List.prefix_nil.1 (hlog ▸ hvalues.log)

omit [l.Steady] in
lemma Signed.targetList {list : Separated Expr} {c : ParseState}
    (h : Signed l s (.assigned list) c) :
    ((targetList l).run s).2.log.entries = []
      ∧ ((targetList l).run s).2.cursor.current.kind = .symbol .eq := by
  have hkind : s.cursor.current.kind ≠ .keyword .local_ := fun hlocal => by
    have hrun := h.run
    rw [run_targets_declared hlocal] at hrun
    cases (Prod.mk.inj hrun).1
  refine ⟨?_, (facing_of_targets hkind (by rw [h.run, h.sign])).1⟩
  obtain ⟨q, hq⟩ : ∃ q, (Grammar.targetList l).run s = q := ⟨_, rfl⟩
  have hlog := h.log
  have hrun : c = ((checkTargets q.1.items).run q.2).2 := by
    have hrun := h.run
    rw [run_targets_assigned hkind, hq] at hrun
    exact (congrArg Prod.snd hrun).symm
  rw [hrun] at hlog
  rw [hq]
  exact List.prefix_nil.1 (hlog ▸ (checkTargets_steady.onward q.2).log)

end Sign

/-! ### Targets within a whole -/

section Echoes

variable {x : Excerpt} {depth : Nat} {outer inner : Level} [outer.Steady] [inner.Steady]
  (h : outer.Echoes x depth inner)
include h

lemma targetList_echoes :
    Parse.Echoes x depth Anywhere (x.move.list x.move.expr) (targetList outer)
      (targetList inner) := by
  refine (suffixed_echoes h).bind fun first => ?_
  rw [Displacement.span_expr]
  exact itemsAfter_echoes (suffixed_echoes h)

lemma targets_echoes :
    Parse.Echoes x depth Anywhere x.move.targets (targets outer) (targets inner) := by
  refine .atKind_wanting rfl suffixed_wanting.bind.bind (.advance (by decide) fun keyword => ?_) ?_
  · exact nameList_echoes.bind fun names => .ret rfl
  · refine (targetList_echoes h).bind fun list => ?_
    rw [Displacement.items_list]
    exact checkTargets_echoes.bind fun _ => .ret rfl

/-- Targets of a part that ends with their equals sign are read in the whole as well. -/
lemma Signed.within {t c : ParseState} {read : Targets} (hpart : Signed inner t read c)
    (hecho : x.Echo depth s t) (hlimit : ¬ x.limited) (hquiet : x.log.entries = [])
    (hclose : c.cursor.ahead = x.close) :
    ∃ whole c', Signed outer s whole c' ∧ x.move.targets whole = read
      ∧ c'.cursor.ahead = x.rest ∧ x.Echo depth c' c := by
  obtain ⟨⟨whole, c'⟩, hwhole⟩ : ∃ r, (targets outer).run s = r := ⟨_, rfl⟩
  have hechoes := targets_echoes h s t hecho trivial
  rw [hwhole, hpart.run] at hechoes
  rcases hechoes with hgave | hlost | ⟨htargets, hecho'⟩
  · exact absurd hgave.limited hlimit
  · rcases hlost with hreported | hpassed
    · exact absurd hpart.log hreported
    · exact absurd hpassed (by simp [hclose])
  have hkind {kind : TokenKind} (hkind : t.cursor.current.kind = kind) (hne : kind ≠ .eof) :
      s.cursor.current.kind = kind := (hecho.kind_eq (hkind ▸ hne)).trans hkind
  have honward := (targets_steady (l := outer)).onward s
  rw [hwhole] at honward
  refine ⟨whole, c', ⟨?_, hwhole, hecho'.whole, honward.depth, ?_, ?_⟩, htargets.symm, ?_, hecho'⟩
  · rcases hpart.begins with hident | hparen | ⟨hlocal, hnext⟩
    · exact .inl (hkind hident (by decide))
    · exact .inr (.inl (hkind hparen (by decide)))
    · refine .inr (.inr ⟨hkind hlocal (by decide), fun hfunction => ?_⟩)
      have hsign : Token.frontKind x.close = .symbol .eq := by
        rw [← hclose, ← Cursor.current_eq hpart.valid.eof, hpart.sign]
      exact hnext ((hecho.next_eq (by rw [hlocal]; rfl) (by simp [hsign])).trans hfunction)
  · rw [hecho'.log_whole, hquiet]
  · exact (hecho'.kind_eq (by rw [hpart.sign]; decide)).trans hpart.sign
  · obtain ⟨front, hs, ht⟩ := hecho'.ahead
    have hnil : front = [] := by simpa [hclose] using ht
    simpa [hnil] using hs

end Echoes

end Grammar

end LuaFront
