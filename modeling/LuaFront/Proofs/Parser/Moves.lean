import LuaFront.Proofs.Parser.Running
import LuaFront.Proofs.Tree.Displaced

/-!
Parsing displaced tokens. No parser looks at a place but to tell whether two errors begin at the
same one, and that decides only what is reported. So from displaced tokens every parser reads the
displaced tree, whatever happens on the way; and it reports the same errors in their new places,
if different offsets stay different.
-/

namespace LuaFront

/-! ### States -/

/-- No span about which something is said ends before it begins. -/
def Diagnostic.Upright (d : Diagnostic) : Prop :=
  d.span.start ≤ d.span.stop ∧ ∀ l ∈ d.labels, l.span.start ≤ l.span.stop

namespace Displacement

variable (m : Displacement)

def cursor (c : Cursor) : Cursor := ⟨c.behind.map m.token, c.ahead.map m.token, m.token c.eof⟩

variable {m} (c : Cursor)

@[simp] lemma token_missing (kind : TokenKind) (offset : Offset) :
    m.token (.missing kind offset) = .missing kind (m.offset offset) := by
  simp [token, Token.missing, m.none, span, Span.empty]

@[simp] lemma current_cursor : (m.cursor c).current = m.token c.current := by
  cases h : c.ahead <;> simp [cursor, Cursor.current, h]

@[simp] lemma next_cursor : (m.cursor c).next = m.token c.next := by
  rcases h : c.ahead with _ | ⟨t, _ | ⟨u, rest⟩⟩ <;> simp [cursor, Cursor.next, h]

@[simp] lemma lastStop_cursor : (m.cursor c).lastStop = m.offset c.lastStop := by
  cases h : c.behind <;> simp [cursor, Cursor.lastStop, h, m.zero, token, span]

@[simp] lemma advance_cursor : (m.cursor c).advance = m.cursor c.advance := by
  rcases h : c.ahead with _ | ⟨t, rest⟩
  · simp [cursor, Cursor.advance, h]
  · by_cases ht : t.kind = .eof <;> simp [cursor, Cursor.advance, h, token, ht]

@[simp] lemma remaining_cursor : (m.cursor c).remaining = c.remaining.map m.token := by
  rw [Cursor.remaining, cursor, List.takeWhile_map]
  rfl

@[simp] lemma finish_cursor : (m.cursor c).finish = m.cursor c.finish := by
  rw [Cursor.finish, remaining_cursor, cursor, List.dropWhile_map, ← List.map_reverse,
    ← List.map_append]
  rfl

@[simp] lemma pos_cursor : (m.cursor c).pos = c.pos := by simp [cursor, Cursor.pos]

@[simp] lemma goTo_cursor (pos : Nat) : (m.cursor c).goTo pos = m.cursor (c.goTo pos) := by
  simp [cursor, Cursor.goTo, List.map_drop, List.map_take]

end Displacement

lemma Cursor.current_mem_tokens (c : Cursor) : c.current ∈ c.tokens := by
  cases h : c.ahead <;> simp [current, tokens, h]

namespace ParseState

/-- The second state is the first one with its tokens displaced. What was reported so far is only
the same if no two offsets have become one, since then another error may have been held back. -/
structure Follows (m : Displacement) (s s' : ParseState) : Prop where
  cursor : s'.cursor = m.cursor s.cursor
  depth : s'.depth = s.depth
  tooDeep : s'.tooDeep = s.tooDeep
  log : StrictMono m.offset → s'.log = m.log s.log
  upright : ∀ t ∈ s.cursor.tokens, t.span.start ≤ t.span.stop
  reported : ∀ d ∈ s.log.entries, d.Upright

namespace Follows

variable {m : Displacement} {s s' t t' : ParseState}

lemma current (h : Follows m s s') : s'.cursor.current = m.token s.cursor.current := by
  rw [h.cursor, Displacement.current_cursor]

/-- A step that moves within the same tokens. -/
lemma move (h : Follows m s s') {c : Cursor} (hc : c.tokens = s.cursor.tokens) :
    Follows m { s with cursor := c } { s' with cursor := m.cursor c } :=
  { h with cursor := rfl, upright := by rw [hc]; exact h.upright }

end Follows

end ParseState

namespace Parse

open ParseState

variable {α β : Type} {m : Displacement}

/-- Run from a state and from the displaced one, two parsers give a result and the displaced one,
and they end in such states too. -/
def Moves (m : Displacement) (displaced : α → α) (p q : Parse α) : Prop :=
  ∀ s s', Follows m s s' →
    (q.run s').1 = displaced (p.run s).1 ∧ Follows m (p.run s).2 (q.run s').2

namespace Moves

variable {act : α → α} {act' : β → β} {p q : Parse α} {f g : α → Parse β}

lemma ret {a b : α} (h : b = act a) : Moves m act (pure a) (pure b) := fun _ _ hs => ⟨h, hs⟩

lemma bind (hp : Moves m act p q) (hf : ∀ a, Moves m act' (f a) (g (act a))) :
    Moves m act' (p >>= f) (q >>= g) := by
  intro s s' hs
  obtain ⟨ha, hs⟩ := hp s s' hs
  have hpair := hf (p.run s).1 _ _ hs
  rw [← ha] at hpair
  exact hpair

lemma ite {c : Prop} [Decidable c] {p' q' : Parse α} (h : Moves m act p q)
    (h' : Moves m act p' q') : Moves m act (if c then p else p') (if c then q else q') := by
  split
  · exact h
  · exact h'

end Moves

/-! ### Looking -/

section Looking

variable {act : α → α}

lemma current_moves : Moves m m.token current current := fun _ _ hs => ⟨hs.current, hs⟩

lemma currentKind_moves {f g : TokenKind → Parse α} (h : ∀ kind, Moves m act (f kind) (g kind)) :
    Moves m act (currentKind >>= f) (currentKind >>= g) := by
  intro s s' hs
  have hkind : s'.cursor.current.kind = s.cursor.current.kind := by rw [hs.current]; rfl
  rw [run_currentKind (f := g), hkind]
  exact h _ s s' hs

lemma nextKind_moves {f g : TokenKind → Parse α} (h : ∀ kind, Moves m act (f kind) (g kind)) :
    Moves m act (nextKind >>= f) (nextKind >>= g) := by
  intro s s' hs
  have hkind : s'.cursor.next.kind = s.cursor.next.kind := by
    rw [hs.cursor, Displacement.next_cursor]
    rfl
  rw [run_nextKind (f := g), hkind]
  exact h _ s s' hs

lemma atKind_moves {kind : TokenKind} {f g : Bool → Parse α}
    (h : ∀ found, Moves m act (f found) (g found)) :
    Moves m act (atKind kind >>= f) (atKind kind >>= g) := by
  simp only [atKind, bind_assoc, pure_bind]
  exact currentKind_moves fun found => h _

lemma remaining_moves {f g : Nat → Parse α} (h : ∀ count, Moves m act (f count) (g count)) :
    Moves m act (remaining >>= f) (remaining >>= g) := by
  intro s s' hs
  have hcount : s'.cursor.ahead.length = s.cursor.ahead.length := by
    rw [hs.cursor]
    exact List.length_map _
  rw [run_remaining (f := g), hcount]
  exact h _ s s' hs

lemma lastStop_moves : Moves m m.offset lastStop lastStop := by
  refine fun s s' hs => ⟨?_, hs⟩
  have hrun : (lastStop.run s').1 = s'.cursor.lastStop := rfl
  rw [hrun, hs.cursor, Displacement.lastStop_cursor]
  rfl

end Looking

/-! ### Steps -/

section Steps

variable {act : α → α}

lemma advance_moves : Moves m m.token advance advance := by
  intro s s' hs
  have hcursor : s'.cursor.advance = m.cursor s.cursor.advance := by
    rw [hs.cursor, Displacement.advance_cursor]
  have hrun : (advance.run s').2 = { s' with cursor := s'.cursor.advance } := rfl
  refine ⟨hs.current, ?_⟩
  rw [hrun, hcursor]
  exact hs.move (Cursor.tokens_advance _)

/-- The rule for a token that something may be said about. -/
lemma Moves.token {f g : Token → Parse α}
    (h : ∀ t, t.span.start ≤ t.span.stop → Moves m act (f t) (g (m.token t))) :
    Moves m act (advance >>= f) (advance >>= g) := by
  intro s s' hs
  obtain ⟨ht, hs'⟩ := advance_moves s s' hs
  have hpair := h (advance.run s).1 (hs.upright _ (Cursor.current_mem_tokens _)) _ _ hs'
  rw [← ht] at hpair
  exact hpair

lemma take?_moves {kind : TokenKind} :
    Moves m (Option.map m.token) (take? kind) (take? kind) := by
  refine atKind_moves fun found => ?_
  cases found with
  | true => exact advance_moves.bind fun t => .ret rfl
  | false => exact .ret rfl

/-! ### Errors -/

/-- Where offsets stay different, the same errors are held back. -/
lemma told_displaced {s s' : ParseState} (hs : Follows m s s') (hm : StrictMono m.offset)
    (d : Diagnostic) : told s' (m.diagnostic d) = m.log (told s d) := by
  have hlast : s'.log.entries.getLast?.any (·.span.start = (m.diagnostic d).span.start)
      = s.log.entries.getLast?.any (·.span.start = d.span.start) := by
    rw [hs.log hm, Displacement.log, List.getLast?_map, Option.any_map]
    simp [Displacement.diagnostic, Displacement.span, hm.injective.eq_iff]
  rw [told, told, hlast, hs.tooDeep, hs.log hm]
  split
  · rfl
  · simp [Displacement.log, Log.push]

lemma told_upright {s : ParseState} (hs : ∀ e ∈ s.log.entries, e.Upright) {d : Diagnostic}
    (hd : d.Upright) : ∀ e ∈ (told s d).entries, e.Upright := by
  unfold told
  split
  · exact hs
  · simpa [Log.push, or_imp, forall_and] using ⟨hs, hd⟩

lemma error_moves {span : Span} (hspan : span.start ≤ span.stop) {message : String}
    {labels : List Label} (hlabels : ∀ l ∈ labels, l.span.start ≤ l.span.stop) :
    Moves m id (error span message labels)
      (error (m.span span) message (labels.map m.label)) := by
  intro s s' hs
  rw [run_error_eq, run_error_eq]
  exact ⟨rfl, { hs with
    log := fun hm => told_displaced hs hm (.error span message labels)
    reported := told_upright hs.reported ⟨hspan, hlabels⟩ }⟩

lemma errorIf_moves {wrong : Bool} {span : Span} (hspan : span.start ≤ span.stop)
    {message : String} :
    Moves m id (errorIf wrong span message) (errorIf wrong (m.span span) message) :=
  .ite (error_moves hspan (by simp)) (.ret rfl)

lemma errorExpected_moves {what : String} {labels : List Label}
    (hlabels : ∀ l ∈ labels, l.span.start ≤ l.span.stop) :
    Moves m id (errorExpected what labels) (errorExpected what (labels.map m.label)) := by
  intro s s' hs
  have hrun : ∀ s labels, (errorExpected what labels).run s = (error s.cursor.current.span
      ("expected " ++ what ++ ", found " ++ s.cursor.current.kind.describe) labels).run s :=
    fun _ _ => rfl
  rw [hrun, hrun, hs.current]
  exact error_moves (hs.upright _ (Cursor.current_mem_tokens _)) hlabels s s' hs

lemma missing_moves {kind : TokenKind} :
    Moves m m.token (do return Token.missing kind (← lastStop))
      (do return Token.missing kind (← lastStop)) :=
  lastStop_moves.bind fun _ => .ret (Displacement.token_missing ..).symm

lemma expect_moves {kind : TokenKind} : Moves m m.token (expect kind) (expect kind) := by
  refine take?_moves.bind fun found => ?_
  cases found with
  | some t => exact .ret rfl
  | none => exact (errorExpected_moves (by simp)).bind fun _ => missing_moves

lemma unclosed_displaced (opener : Token) :
    unclosed (m.token opener) = (unclosed opener).map m.label := by
  have hmissing : (m.token opener).isMissing = opener.isMissing := rfl
  rw [unclosed, unclosed, hmissing]
  split <;> rfl

lemma unclosed_upright {opener : Token} (h : opener.span.start ≤ opener.span.stop) :
    ∀ l ∈ unclosed opener, l.span.start ≤ l.span.stop := by
  unfold unclosed
  split <;> simp [h]

lemma expectClosing_moves {kind : TokenKind} {opener : Token}
    (hopener : opener.span.start ≤ opener.span.stop) :
    Moves m m.token (expectClosing kind opener) (expectClosing kind (m.token opener)) := by
  refine take?_moves.bind fun found => ?_
  cases found with
  | some t => exact .ret rfl
  | none =>
    have herror : Moves m id (errorExpected kind.describe (unclosed opener))
        (errorExpected kind.describe (unclosed (m.token opener))) := by
      rw [unclosed_displaced]
      exact errorExpected_moves (unclosed_upright hopener)
    exact herror.bind fun _ => missing_moves

/-! ### Trying -/

lemma checkpoint_moves {f g : Checkpoint → Parse α}
    (h : ∀ c c' : Checkpoint, c.pos = c'.pos → (StrictMono m.offset → c.errors = c'.errors) →
      Moves m act (f c) (g c')) :
    Moves m act (checkpoint >>= f) (checkpoint >>= g) := by
  intro s s' hs
  refine h _ _ ?_ (fun hm => ?_) s s' hs
  · simp [hs.cursor]
  · simp [hs.log hm, Displacement.log, Log.size]

lemma restore_moves {c c' : Checkpoint} (hpos : c.pos = c'.pos)
    (herrors : StrictMono m.offset → c.errors = c'.errors) :
    Moves m id (restore c) (restore c') := by
  intro s s' hs
  have hcursor : s'.cursor.goTo c'.pos = m.cursor (s.cursor.goTo c.pos) := by
    rw [hs.cursor, hpos, Displacement.goTo_cursor]
  have hmoved := hs.move (Cursor.tokens_goTo s.cursor c.pos)
  have hrun : (restore c').run s' = ((), { s' with
      cursor := s'.cursor.goTo c'.pos
      log := s'.log.truncate c'.errors }) := rfl
  rw [hrun, hcursor]
  refine ⟨rfl, { hmoved with log := fun hm => ?_, reported := fun d hd => ?_ }⟩
  · change s'.log.truncate c'.errors = m.log (s.log.truncate c.errors)
    rw [hs.log hm, herrors hm]
    simp [Displacement.log, Log.truncate, List.map_take]
  · exact hs.reported d (List.mem_of_mem_take hd)

/-! ### Levels -/

lemma giveUp_moves : Moves m (List.map m.token) giveUp giveUp := by
  intro s s' hs
  have hrun : giveUp.run s' = (s'.cursor.remaining,
      { s' with cursor := s'.cursor.finish, tooDeep := true }) := rfl
  rw [hrun, hs.cursor, Displacement.remaining_cursor, Displacement.finish_cursor]
  have hmoved := hs.move (Cursor.tokens_finish s.cursor)
  exact ⟨rfl, { hmoved with tooDeep := rfl }⟩

/-- A level is refused in the same states. -/
lemma enter_moves : Moves m (Option.map (List.map m.token)) enter enter := by
  intro s s' hs
  cases hdeep : s.tooDeep with
  | true =>
    rw [run_enter_gaveUp hdeep, run_enter_gaveUp (hs.tooDeep.trans hdeep)]
    exact ⟨rfl, hs⟩
  | false =>
    have hdeep' := hs.tooDeep.trans hdeep
    by_cases hdepth : maxDepth ≤ s.depth
    · rw [run_enter_refused hdeep hdepth, run_enter_refused hdeep' (hs.depth ▸ hdepth), hs.current]
      have hcurrent := hs.upright _ (Cursor.current_mem_tokens _)
      refine (error_moves hcurrent (List.forall_mem_nil _)).bind (fun _ => ?_) s s' hs
      exact giveUp_moves.bind fun rest => .ret rfl
    · have hdepth := Nat.not_le.1 hdepth
      rw [run_enter_entered hdeep hdepth, run_enter_entered hdeep' (hs.depth ▸ hdepth)]
      exact ⟨rfl, { hs with depth := congrArg (· + 1) hs.depth }⟩

lemma leave_moves : Moves m id leave leave := fun _ _ hs =>
  ⟨rfl, { hs with depth := congrArg (· - 1) hs.depth }⟩

lemma nested_moves {refused refused' : List Token → Parse α} {inner inner' : Parse α}
    (hrefused : ∀ tokens, Moves m act (refused tokens) (refused' (tokens.map m.token)))
    (hinner : Moves m act inner inner') :
    Moves m act (nested refused inner) (nested refused' inner') := by
  refine enter_moves.bind fun found => ?_
  cases found with
  | some tokens => exact hrefused tokens
  | none => exact hinner.bind fun _ => leave_moves.bind fun _ => .ret rfl

end Steps

end Parse

end LuaFront
