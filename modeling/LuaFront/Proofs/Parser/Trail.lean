import LuaFront.Grammar.Machine
import LuaFront.Proofs.Parser.Progress

/-!
Runs of a machine beside those of a parser. The states of a parser are seen as those of a machine,
and a checked parser comes to a result where it does not stop. On its way it passes only states to
which the parser can come.
-/

namespace LuaFront

/-! ### Places as indices -/

namespace Cursor

lemma length_tokens (c : Cursor) : c.tokens.length = c.pos + c.ahead.length + 1 := by
  simp [tokens, pos, Nat.add_assoc]

/-- The place is that of a token, which is the current one. -/
lemma getElem?_pos (c : Cursor) : c.tokens[c.pos]? = some c.current := by
  rw [tokens, pos, List.append_assoc, List.getElem?_append_right (by simp)]
  cases hahead : c.ahead <;> simp [current, hahead]

/-- The token after the current one is at the next place, if that is one. -/
lemma getElem?_next (c : Cursor) :
    c.tokens[min (c.pos + 1) (c.tokens.length - 1)]? = some c.next := by
  rw [length_tokens]
  rcases hahead : c.ahead with _ | ⟨t, _ | ⟨u, rest⟩⟩
  · have hlast := c.getElem?_pos
    simp_all [next, current]
  · rw [tokens, pos, List.append_assoc, List.getElem?_append_right (by simp)]
    simp [next, hahead]
  · rw [tokens, pos, List.append_assoc, List.getElem?_append_right (by simp)]
    simp [next, hahead]

lemma pos_advance {c : Cursor} (heof : c.eof.kind = .eof) (h : c.current.kind ≠ .eof) :
    c.advance.pos = c.pos + 1 := by
  rcases hahead : c.ahead with _ | ⟨t, rest⟩
  · exact absurd heof (by simpa [current, hahead] using h)
  · rw [advance_of_ahead hahead (by simpa [current, hahead] using h)]
    rfl

/-- What is left begins with the current token, if that is not the end of input. -/
lemma remaining_eq {c : Cursor} (heof : c.eof.kind = .eof) (h : c.current.kind ≠ .eof) :
    c.remaining = c.current :: c.advance.remaining ∧ c.finish = c.advance.finish := by
  rcases hahead : c.ahead with _ | ⟨t, rest⟩
  · exact absurd heof (by simpa [current, hahead] using h)
  · have ht : t.kind ≠ .eof := by simpa [current, hahead] using h
    simp [remaining, finish, current, advance_of_ahead hahead ht, hahead, ht]

lemma pos_goTo (c : Cursor) (pos : Nat) :
    (c.goTo pos).pos = min pos (c.tokens.length - 1) := by
  simp [goTo, Cursor.pos, tokens]

end Cursor

/-! ### States -/

/-- Once the rest of the input was given up, the machine stays where it is. -/
def Machine.Settles (earlier later : Machine) : Prop :=
  earlier.tooDeep = true → later.tooDeep = true ∧ later.pos = earlier.pos

lemma Machine.Settles.trans {l m n : Machine} (h : l.Settles m) (h' : m.Settles n) :
    l.Settles n := by
  intro hdeep
  obtain ⟨hgave, hpos⟩ := h hdeep
  exact (h' hgave).imp_right fun hpos' => hpos'.trans hpos

namespace ParseState

open Parse

variable {s t u : ParseState} {passed passed' : List Machine}

/-- The state of a parser as one of a machine. -/
def machine (s : ParseState) : Machine where
  tokens := s.cursor.tokens
  pos := s.cursor.pos
  log := s.log
  depth := s.depth
  tooDeep := s.tooDeep

lemma machine_ofTokens (tokens : List Token) : (ofTokens tokens).machine = .ofTokens tokens := by
  simp only [machine, ofTokens, Machine.ofTokens, Cursor.ofTokens]
  cases hlast : tokens.getLast? with
  | none => simp_all [Cursor.tokens, Cursor.pos]
  | some last =>
    obtain ⟨front, rfl⟩ := List.getLast?_eq_some_iff.1 hlast
    by_cases heof : last.kind = .eof <;> simp [Cursor.tokens, Cursor.pos, heof]

/-- Any number of levels further out. -/
lemma Later.outward (h : s.Later t) (levels : Nat) :
    s.Later { t with depth := t.depth - levels } := by
  induction levels with
  | zero => exact h
  | succ levels ih => exact ih.outside

lemma Later.settles (h : s.Later t) (hs : s.Valid) : s.machine.Settles t.machine := by
  intro hdeep
  have hcursor : t.tooDeep = true ∧ t.cursor = s.cursor := by
    induction h with
    | now => exact ⟨hdeep, rfl⟩
    | walk hlater hwalk ih =>
      obtain ⟨hgave, hcursor⟩ := ih
      have hvalid := hlater.valid hs
      exact ⟨hwalk.onward.tooDeep hgave,
        (hwalk.cursor_eq hvalid (hvalid.gaveUp hgave).1).trans hcursor⟩
    | inside _ hnone ih =>
      exact absurd ((enter_eq_none hnone).1.symm.trans ih.1) Bool.false_ne_true
    | outside _ ih => exact ih
  exact ⟨hcursor.1, congrArg Cursor.pos hcursor.2⟩

/-- What a machine has passed between two states of a parser. -/
structure Trail (s t : ParseState) (passed : List Machine) : Prop where
  within : ∀ m ∈ passed, ∃ u, s.Later u ∧ u.machine = m
  settles : (t.machine :: passed).Pairwise fun later earlier => earlier.Settles later

lemma Trail.refl (s : ParseState) : s.Trail s [] :=
  ⟨List.forall_mem_nil _, List.pairwise_singleton _ _⟩

/-- A step that leaves the place as it is, or is taken where the rest was not given up. -/
lemma Trail.step (h : s.Trail t passed) (hst : s.Later t)
    (hset : t.machine.Settles u.machine) :
    s.Trail u passed ∧ s.Trail u (t.machine :: passed) := by
  obtain ⟨hlast, hrest⟩ := List.pairwise_cons.1 h.settles
  have hall : ∀ m ∈ passed, m.Settles u.machine := fun m hm => (hlast m hm).trans hset
  refine ⟨⟨h.within, List.pairwise_cons.2 ⟨hall, hrest⟩⟩, ?_, ?_⟩
  · exact List.forall_mem_cons.2 ⟨⟨t, hst, rfl⟩, h.within⟩
  · exact List.pairwise_cons.2 ⟨List.forall_mem_cons.2 ⟨hset, hall⟩, h.settles⟩

lemma Trail.trans (h : s.Trail t passed) (ht : t.Valid) (hst : s.Later t) (htu : t.Later u)
    (h' : t.Trail u passed') : s.Trail u (passed' ++ passed) where
  within := by
    intro m hm
    rcases List.mem_append.1 hm with hm | hm
    · obtain ⟨v, hv, rfl⟩ := h'.within m hm
      exact ⟨v, hst.trans hv, rfl⟩
    · exact h.within m hm
  settles := by
    obtain ⟨hlast, hrest⟩ := List.pairwise_cons.1 h.settles
    have hlater : ∀ m ∈ u.machine :: passed', t.machine.Settles m := by
      refine List.forall_mem_cons.2 ⟨htu.settles ht, fun m hm => ?_⟩
      obtain ⟨v, hv, rfl⟩ := h'.within m hm
      exact hv.settles ht
    rw [← List.cons_append, List.pairwise_append]
    exact ⟨h'.settles, hrest, fun l hl m hm => (hlast m hm).trans (hlater l hl)⟩

end ParseState

/-! ### Checked parsers -/

/-- From a state of a parser, a checked parser does not stop, and comes to a result and a state. -/
structure ParseState.Comes {α : Type} (s : ParseState) (g : Checked α) (a : α) (t : ParseState) :
    Prop where
  later : s.Later t
  run : ∀ before, ∃ passed,
    g.run ⟨s.machine, before⟩ = some (a, ⟨t.machine, passed ++ before⟩) ∧ s.Trail t passed

namespace Checked

open ParseState

variable {α β : Type} {s t u : ParseState}

section Comes

variable {g : Checked α} {f : α → Checked β} {a : α} {b : β}

lemma comes_still (h : ∀ before, g.run ⟨s.machine, before⟩ = some (a, ⟨s.machine, before⟩)) :
    s.Comes g a s := ⟨.now, fun before => ⟨[], h before, .refl s⟩⟩

lemma comes_ret : s.Comes (pure a) a s := comes_still fun _ => rfl

lemma comes_bind (hs : s.Valid) (h : s.Comes g a t) (h' : t.Comes (f a) b u) :
    s.Comes (g >>= f) b u := by
  refine ⟨h.later.trans h'.later, fun before => ?_⟩
  obtain ⟨passed, hrun, htrail⟩ := h.run before
  obtain ⟨passed', hrun', htrail'⟩ := h'.run (passed ++ before)
  refine ⟨passed' ++ passed, ?_, htrail.trans (h.later.valid hs) h.later h'.later htrail'⟩
  rw [StateT.run_bind, hrun, List.append_assoc]
  exact hrun'

/-- A checked parser takes one step or none, and goes on as another one. -/
def Steps (s : ParseState) (g g' : Checked α) (t : ParseState) : Prop :=
  ∃ passed, (passed = [] ∨ passed = [s.machine]) ∧
    ∀ before, g.run ⟨s.machine, before⟩ = g'.run ⟨t.machine, passed ++ before⟩

lemma Steps.bind (h : Steps s g (pure a) t) : Steps s (g >>= f) (f a) t := by
  obtain ⟨passed, hpassed, hrun⟩ := h
  refine ⟨passed, hpassed, fun before => ?_⟩
  rw [StateT.run_bind, hrun]
  rfl

lemma Steps.look {g' : Checked β}
    (h : ∀ before, g.run ⟨s.machine, before⟩ = some (a, ⟨s.machine, before⟩))
    (h' : Steps s (f a) g' t) : Steps s (g >>= f) g' t := by
  obtain ⟨passed, hpassed, hrun⟩ := h'
  refine ⟨passed, hpassed, fun before => ?_⟩
  rw [StateT.run_bind, h]
  exact hrun before

lemma steps_become {f : Machine → Machine} (hf : f s.machine = t.machine) :
    Steps s (become f) (pure ()) t := by
  refine ⟨[s.machine], .inr rfl, fun before => ?_⟩
  rw [← hf]
  rfl

/-- The step may be one that only the states before it explain. -/
lemma comes_bind_steps {g' : Checked β} {v : ParseState} (hs : s.Valid) (h : s.Comes g a t)
    (hlater : s.Later u) (hset : t.machine.Settles u.machine) (hstep : Steps t (f a) g' u)
    (h' : u.Comes g' b v) : s.Comes (g >>= f) b v := by
  refine ⟨hlater.trans h'.later, fun before => ?_⟩
  obtain ⟨passed, hrun, htrail⟩ := h.run before
  obtain ⟨step, hpassed, hrun'⟩ := hstep
  obtain ⟨passed', hrun'', htrail'⟩ := h'.run (step ++ (passed ++ before))
  have hsteps : s.Trail u (step ++ passed) := by
    obtain ⟨hstay, hstep⟩ := htrail.step h.later hset
    rcases hpassed with rfl | rfl
    · exact hstay
    · exact hstep
  refine ⟨passed' ++ (step ++ passed), ?_, hsteps.trans (hlater.valid hs) hlater h'.later htrail'⟩
  rw [StateT.run_bind, hrun, List.append_assoc, List.append_assoc, ← hrun'']
  exact hrun' _

lemma comes_steps {g' : Checked α} (hs : s.Valid) (hlater : s.Later t) (hstep : Steps s g g' t)
    (h : t.Comes g' a u) : s.Comes g a u := by
  have hbind := comes_bind_steps (g := pure ()) (f := fun _ => g) hs comes_ret hlater
    (hlater.settles hs) hstep h
  rwa [pure_bind] at hbind

lemma comes_become (hs : s.Valid) (hlater : s.Later t) {f : Machine → Machine}
    (hf : f s.machine = t.machine) : s.Comes (become f) () t :=
  comes_steps hs hlater (steps_become hf) comes_ret

lemma comes_guard {c : Prop} [Decidable c] (h : c) : s.Comes (guard c) () s := by
  refine comes_still fun before => ?_
  rw [guard, if_pos h]
  rfl

end Comes

/-! ### Looking -/

lemma comes_now : s.Comes now s.machine s := comes_still fun _ => rfl

lemma run_current (s : ParseState) (before : List Machine) :
    current.run ⟨s.machine, before⟩ = some (s.cursor.current, ⟨s.machine, before⟩) := by
  have hrun : current.run ⟨s.machine, before⟩
      = s.cursor.tokens[s.cursor.pos]?.bind fun t => some (t, ⟨s.machine, before⟩) := rfl
  rw [hrun, Cursor.getElem?_pos]
  rfl

lemma run_atKind (kind : TokenKind) (s : ParseState) (before : List Machine) :
    (atKind kind).run ⟨s.machine, before⟩
      = some (decide (s.cursor.current.kind = kind), ⟨s.machine, before⟩) := by
  rw [atKind, currentKind, bind_assoc, StateT.run_bind, run_current]
  rfl

lemma comes_current (s : ParseState) : s.Comes current s.cursor.current s :=
  comes_still (run_current s)

lemma comes_currentKind (hs : s.Valid) : s.Comes currentKind s.cursor.current.kind s :=
  comes_bind hs (comes_current s) comes_ret

lemma comes_atKind (kind : TokenKind) (s : ParseState) :
    s.Comes (atKind kind) (decide (s.cursor.current.kind = kind)) s :=
  comes_still (run_atKind kind s)

lemma comes_next (s : ParseState) : s.Comes next s.cursor.next s := by
  refine comes_still fun before => ?_
  have hrun : next.run ⟨s.machine, before⟩
      = s.cursor.tokens[min (s.cursor.pos + 1) (s.cursor.tokens.length - 1)]?.bind
        fun t => some (t, ⟨s.machine, before⟩) := rfl
  rw [hrun, Cursor.getElem?_next]
  rfl

lemma lastStop_machine (s : ParseState) : s.machine.lastStop = s.cursor.lastStop := by
  rw [Machine.lastStop, machine, Cursor.lastStop, Cursor.pos, Cursor.tokens]
  cases s.cursor.behind <;> simp

lemma comes_lastStop (s : ParseState) : s.Comes lastStop s.cursor.lastStop s := by
  refine comes_still fun before => ?_
  rw [← lastStop_machine]
  rfl

lemma comes_remaining (s : ParseState) : s.Comes remaining s.cursor.ahead.length s := by
  refine comes_still fun before => ?_
  have hlength : s.machine.tokens.length - 1 - s.machine.pos = s.cursor.ahead.length := by
    rw [machine, Cursor.length_tokens, Nat.add_sub_cancel, Nat.add_sub_cancel_left]
  rw [← hlength]
  rfl

/-! ### Steps -/

lemma comes_advance (hs : s.Valid) :
    s.Comes advance s.cursor.current { s with cursor := s.cursor.advance } := by
  refine comes_bind hs (comes_current s) ?_
  by_cases heof : s.cursor.current.kind = .eof
  · rw [if_pos heof, Cursor.advance_of_eof heof]
    exact comes_ret
  · rw [if_neg heof]
    refine comes_bind hs (comes_become hs (.walk .now (.advance s)) ?_) comes_ret
    simp [machine, Cursor.pos_advance hs.eof heof]

/-- An error changes nothing but the log. -/
lemma steps_error (s : ParseState) (span : Span) (message : String) (labels : List Label) :
    Steps s (error span message labels) (pure ())
      { s with log := Parse.told s (.error span message labels) } := by
  have hrun : ∀ before, (error span message labels).run ⟨s.machine, before⟩
      = (if s.tooDeep || s.log.entries.getLast?.any (·.span.start = span.start) then return ()
        else become fun m => { m with log := m.log.error span message labels } : Checked Unit).run
          ⟨s.machine, before⟩ := fun _ => rfl
  have htold : Parse.told s (.error span message labels)
      = if s.tooDeep || s.log.entries.getLast?.any (·.span.start = span.start) then s.log
        else s.log.error span message labels := rfl
  simp only [Steps, hrun, htold]
  split
  · exact ⟨[], .inl rfl, fun _ => rfl⟩
  · exact ⟨[s.machine], .inr rfl, fun _ => rfl⟩

lemma comes_error {span : Span} {message : String} {labels : List Label} (hs : s.Valid)
    (hlater : s.Later { s with log := Parse.told s (.error span message labels) }) :
    s.Comes (error span message labels) ()
      { s with log := Parse.told s (.error span message labels) } :=
  comes_steps hs hlater (steps_error ..) comes_ret

lemma steps_restore (s : ParseState) (c : Parse.Checkpoint) :
    Steps s (restore c) (pure ()) ((Parse.restore c).run s).2 := by
  refine steps_become ?_
  have hrun : ((Parse.restore c).run s).2
      = { s with cursor := s.cursor.goTo c.pos, log := s.log.truncate c.errors } := rfl
  simp [hrun, machine, Cursor.pos_goTo]

/-! ### Levels -/

lemma comes_swallow {bound : Nat} (hs : s.Valid) (hbound : s.cursor.ahead.length ≤ bound) :
    s.Comes (swallow bound) s.cursor.remaining { s with cursor := s.cursor.finish } := by
  induction bound generalizing s with
  | zero =>
    have heof := Parse.current_of_done hs hbound
    rw [Cursor.finish_of_eof heof, Cursor.remaining_of_eof heof]
    exact comes_ret
  | succ bound ih =>
    refine comes_bind hs (comes_atKind .eof s) ?_
    by_cases heof : s.cursor.current.kind = .eof
    · rw [if_pos (decide_eq_true heof), Cursor.finish_of_eof heof, Cursor.remaining_of_eof heof]
      exact comes_ret
    · obtain ⟨hremaining, hfinish⟩ := Cursor.remaining_eq hs.eof heof
      have hadvance := comes_advance hs
      have hlt := Parse.ahead_lt_of_advance hs heof
      rw [if_neg (by simpa using heof), hremaining, hfinish]
      refine comes_bind hs hadvance ?_
      exact comes_bind (hadvance.later.valid hs)
        (ih (hadvance.later.valid hs) (Nat.le_of_lt_succ (Nat.lt_of_lt_of_le hlt hbound))) comes_ret

/-- The limit is reported at the current token, and the rest of the input consumed. -/
lemma comes_refuse (hs : s.Valid) : s.Comes refuse s.cursor.remaining
    { s with cursor := s.cursor.finish, log := Parse.told s (refusal s.cursor.current) } := by
  have hreport : s.Later { s with log := Parse.told s (refusal s.cursor.current) } :=
    .walk .now (.report s [] (.inr rfl))
  refine comes_bind hs (comes_current s) ?_
  refine comes_bind hs (comes_error hs hreport) ?_
  exact comes_bind (hreport.valid hs) (comes_remaining _)
    (comes_swallow (hreport.valid hs) (Nat.le_refl _))

/-- A machine enters a level just where a parser does. -/
lemma comes_enter (hs : s.Valid) :
    s.Comes enter (Parse.enter.run s).1 (Parse.enter.run s).2 := by
  refine comes_bind hs comes_now ?_
  cases hdeep : s.machine.tooDeep with
  | true =>
    rw [if_pos rfl, Parse.run_enter_gaveUp hdeep]
    exact comes_ret
  | false =>
    rw [if_neg Bool.false_ne_true]
    by_cases hdepth : maxDepth ≤ s.machine.depth
    · rw [if_pos hdepth, Parse.run_enter_giveUp hdeep hdepth]
      refine comes_bind_steps hs (comes_refuse hs) (.walk .now (.refuse s)) (fun hgave => ?_)
        (steps_become rfl).bind comes_ret
      exact absurd (hdeep.symm.trans hgave) Bool.false_ne_true
    · have hentered := Parse.run_enter_entered hdeep (Nat.not_le.1 hdepth)
      have hlater : s.Later { s with depth := s.depth + 1 } := by
        have hinside := Later.now.inside (congrArg Prod.fst hentered)
        rwa [hentered] at hinside
      rw [if_neg hdepth, hentered]
      exact comes_bind hs (comes_become hs hlater rfl) comes_ret

/-- As many levels can be left at once as were entered. -/
lemma comes_leaveLevels {levels : Nat} (hs : s.Valid) (h : levels ≤ s.depth) :
    s.Comes (leaveLevels levels) () { s with depth := s.depth - levels } := by
  refine comes_bind hs comes_now ?_
  exact comes_bind hs (comes_guard h) (comes_become hs (.outward .now levels) rfl)

/-! ### Lists -/

lemma comes_push {l : Separated α} (hs : s.Valid) (h : l.lacksDelimiter = false) (item : α) :
    s.Comes (push l item) (l.push item) s :=
  comes_bind hs (comes_guard h) comes_ret

lemma comes_delimit {l : Separated α} (hs : s.Valid) (h : l.lacksDelimiter = true)
    (delimiter : Token) : s.Comes (delimit l delimiter) (l.delimit delimiter) s :=
  comes_bind hs (comes_guard h) comes_ret

end Checked

end LuaFront
