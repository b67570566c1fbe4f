import LuaFront.Proofs.Parser.Bounds
import LuaFront.Proofs.Parser.Displaced

/-!
Parts of a text. What a parser reads of a part by itself, it reads of the part within a whole text
too, if no error is found in the part, and what comes after the part in the whole ends a block or
begins a statement. Where the part ends the parser then sees such a token instead of the end of
input. In the whole it may be deeper by some levels; so it may meet the nesting limit that it does
not meet in the part. Where an error is found in the part nothing is claimed, so that a parser need
not be followed where it recovers from one.

Before a statement, a block that ends with the part goes on in the whole. What is read of the part
then lacks the token that closes the block, unless the block is the outermost one.

The same is shown for a part that does not end with the text where it is read by itself, but before
some token that comes after it in the whole, too, as long as the parser does not go past that.
-/

namespace LuaFront

namespace TokenKind

variable {α : Sort*}

/-- A token that begins a statement, and is never taken for more of the one before it. -/
def beginsStat : TokenKind → Bool
  | ident | keyword .do_ | keyword .for_ | keyword .function_ | keyword .if_ => true
  | keyword .local_ | keyword .repeat_ | keyword .while_ => true
  | _ => false

lemma beginsStat_of_ends {kind : TokenKind} (h : kind.endsBlock = true) :
    kind.beginsStat = false := by
  unfold endsBlock at h
  split at h <;> first | rfl | cases h

lemma endsBlock_of_begins {kind : TokenKind} (h : kind.beginsStat = true) :
    kind.endsBlock = false := by
  by_contra hends
  rw [beginsStat_of_ends (by simpa using hends)] at h
  cases h

/-- A choice is the same for all kinds of tokens that end a block. -/
structure Blind (f : TokenKind → α) : Prop where
  end_ : f (.keyword .end_) = f .eof
  else_ : f (.keyword .else_) = f .eof
  elseif_ : f (.keyword .elseif_) = f .eof
  until_ : f (.keyword .until_) = f .eof

lemma Blind.eq {f : TokenKind → α} (h : Blind f) {kind : TokenKind}
    (hkind : kind.endsBlock = true) : f kind = f .eof := by
  unfold endsBlock at hkind
  split at hkind
  · rfl
  · exact h.end_
  · exact h.else_
  · exact h.elseif_
  · exact h.until_
  · cases hkind

/-- A choice is also the same for those that begin a statement. -/
structure Settled (f : TokenKind → α) : Prop where
  end_ : f (.keyword .end_) = f .eof
  else_ : f (.keyword .else_) = f .eof
  elseif_ : f (.keyword .elseif_) = f .eof
  until_ : f (.keyword .until_) = f .eof
  ident : f .ident = f .eof
  do_ : f (.keyword .do_) = f .eof
  for_ : f (.keyword .for_) = f .eof
  function_ : f (.keyword .function_) = f .eof
  if_ : f (.keyword .if_) = f .eof
  local_ : f (.keyword .local_) = f .eof
  repeat_ : f (.keyword .repeat_) = f .eof
  while_ : f (.keyword .while_) = f .eof

lemma Settled.blind {f : TokenKind → α} (h : Settled f) : Blind f :=
  ⟨h.end_, h.else_, h.elseif_, h.until_⟩

/-- What comes after a part ends a block or begins a statement. -/
def follows (kind : TokenKind) : Bool := kind.endsBlock || kind.beginsStat

lemma Settled.eq {f : TokenKind → α} (h : Settled f) {kind : TokenKind}
    (hkind : kind.follows = true) : f kind = f .eof := by
  rw [follows, Bool.or_eq_true] at hkind
  rcases hkind with hends | hbegins
  · exact h.blind.eq hends
  · unfold beginsStat at hbegins
    split at hbegins
    · exact h.ident
    · exact h.do_
    · exact h.for_
    · exact h.function_
    · exact h.if_
    · exact h.local_
    · exact h.repeat_
    · exact h.while_
    · cases hbegins

/-- A token of the whole and one of the part are of one kind, or the part ends before a token of
the whole that comes after such a part. -/
def Alike (kind part : TokenKind) : Prop :=
  part = kind ∨ part = .eof ∧ kind.follows = true

lemma Settled.alike {f : TokenKind → α} (h : Settled f) {kind part : TokenKind}
    (hkind : Alike kind part) : f kind = f part := by
  rcases hkind with rfl | ⟨rfl, hfollows⟩
  · rfl
  · exact h.eq hfollows

end TokenKind

lemma TokenKind.Alike.decide_eq {kind part other : TokenKind} (h : TokenKind.Alike kind part)
    (hother : other.follows = false) : decide (kind = other) = decide (part = other) := by
  rcases h with rfl | ⟨rfl, hfollows⟩
  · rfl
  · rw [decide_eq_false, decide_eq_false]
    · rintro rfl
      cases hother
    · rintro rfl
      rw [hfollows] at hother
      cases hother

/-- A choice is the same in the part and in the whole, or the part ends before a statement. -/
lemma TokenKind.Blind.alike {α : Sort*} {f : TokenKind → α} (h : TokenKind.Blind f)
    {kind part : TokenKind} (hkind : TokenKind.Alike kind part) :
    f kind = f part ∨ part = .eof ∧ kind.beginsStat = true := by
  rcases hkind with rfl | ⟨rfl, hfollows⟩
  · exact .inl rfl
  · rw [TokenKind.follows, Bool.or_eq_true] at hfollows
    exact hfollows.imp h.eq fun hbegins => ⟨rfl, hbegins⟩

/-- The kind of the first token ahead. -/
def Token.frontKind (ahead : List Token) : TokenKind := ahead.head?.elim .eof (·.kind)

lemma Cursor.current_eq {c : Cursor} (h : c.eof.kind = .eof) :
    c.current.kind = Token.frontKind c.ahead := by
  cases hahead : c.ahead <;> simp [current, Token.frontKind, hahead, h]

lemma Cursor.next_eq {c : Cursor} (h : c.eof.kind = .eof) :
    c.next.kind = Token.frontKind c.ahead.tail := by
  cases hahead : c.ahead.tail <;> simp [next, Token.frontKind, hahead, h]

/-- Where a token of the kind is the current one, a parser may look at the next one. -/
def TokenKind.looksAhead : TokenKind → Bool
  | .ident | .keyword .local_ => true
  | _ => false

/-- A part within a whole: what the tokens of the whole are in the part, what comes after the part
in the whole and where it is read by itself, what was reported before it in the whole, by how many
levels the parser is deeper there, and whether it may meet the nesting limit. -/
structure Excerpt where
  move : Displacement
  rest : List Token
  close : List Token
  log : Log
  gap : Nat
  limited : Prop
  ends : TokenKind.Alike (Token.frontKind rest) (Token.frontKind close)
  gate : ∀ t ∈ close.head?, t.kind.looksAhead = false
  deeper : 0 < gap → limited
  quiet : limited → log.entries = []

namespace Excerpt

open ParseState

/-- The second state is within the part what the first one is within the whole. -/
structure Echo (x : Excerpt) (depth : Nat) (s t : ParseState) : Prop where
  whole : s.Valid
  part : t.Valid
  ahead : ∃ front, s.cursor.ahead = front ++ x.rest
    ∧ t.cursor.ahead = front.map x.move.token ++ x.close
  lastStop : t.cursor.lastStop = x.move.offset s.cursor.lastStop
  depth_whole : s.depth = depth + x.gap
  depth_part : t.depth = depth
  tooDeep : s.tooDeep = false
  log_whole : s.log = x.log
  log_part : t.log.entries = []

/-- In the whole the nesting limit was met and reported. -/
structure Gave (x : Excerpt) (s : ParseState) : Prop where
  limited : x.limited
  tooDeep : s.tooDeep = true
  reported : ∃ d ∈ s.log.entries, d.message = limitMessage

lemma Gave.onward {x : Excerpt} {s s' : ParseState} (h : x.Gave s) (honward : s.Onward s') :
    x.Gave s' := by
  obtain ⟨d, hd, hmessage⟩ := h.reported
  exact ⟨h.limited, honward.tooDeep h.tooDeep, d, honward.log.subset hd, hmessage⟩

/-- In the part something was reported, or the parser went past the end. -/
inductive Lost (x : Excerpt) (t : ParseState) : Prop
  | reported : t.log.entries ≠ [] → Lost x t
  | passed : t.cursor.ahead.length < x.close.length → Lost x t

lemma Lost.onward {x : Excerpt} {t t' : ParseState} (h : x.Lost t) (honward : t.Onward t') :
    x.Lost t' := by
  rcases h with hlog | hpassed
  · exact .reported fun hnil => hlog (List.prefix_nil.1 (hnil ▸ honward.log))
  · exact .passed (Nat.lt_of_le_of_lt honward.cursor.length_le hpassed)

/-- The part ended where a statement begins in the whole. -/
structure Halted (x : Excerpt) (t : ParseState) : Prop where
  begins : (Token.frontKind x.rest).beginsStat = true
  valid : t.Valid
  eof : t.cursor.current.kind = .eof

lemma Halted.walk {x : Excerpt} {t t' : ParseState} (h : x.Halted t) (hwalk : t.Walk t') :
    x.Halted t' :=
  ⟨h.begins, hwalk.onward.valid h.valid, (hwalk.cursor_eq h.valid h.eof).symm ▸ h.eof⟩

namespace Echo

variable {x : Excerpt} {depth : Nat} {s t : ParseState}

lemma going (h : x.Echo depth s t) : t.tooDeep = false := by
  cases hgave : t.tooDeep with
  | false => rfl
  | true => exact absurd h.log_part (h.part.gaveUp hgave).2

lemma alike (h : x.Echo depth s t) :
    TokenKind.Alike s.cursor.current.kind t.cursor.current.kind := by
  obtain ⟨front, hs, ht⟩ := h.ahead
  rw [Cursor.current_eq h.whole.eof, Cursor.current_eq h.part.eof, hs, ht]
  cases front with
  | nil => exact x.ends
  | cons a front => exact .inl rfl

lemma kind_eq (h : x.Echo depth s t) (hkind : t.cursor.current.kind ≠ .eof) :
    s.cursor.current.kind = t.cursor.current.kind :=
  (h.alike.resolve_right fun hends => hkind hends.1).symm

/-- The current token is in the part, or it is the first one after it. -/
lemma exists_current (h : x.Echo depth s t) (hkind : t.cursor.current.kind ≠ .eof) :
    (∃ a front, s.cursor.ahead = a :: front ++ x.rest
      ∧ t.cursor.ahead = (a :: front).map x.move.token ++ x.close)
      ∨ ∃ a close, a.kind.looksAhead = false ∧ x.close = a :: close
        ∧ t.cursor.ahead = a :: close := by
  obtain ⟨front, hs, ht⟩ := h.ahead
  cases front with
  | nil =>
    have ht' : t.cursor.ahead = x.close := ht
    cases hclose : x.close with
    | nil =>
      rw [Cursor.current_eq h.part.eof, ht', hclose] at hkind
      exact absurd rfl hkind
    | cons a close => exact .inr ⟨a, close, x.gate a (by simp [hclose]), rfl, ht'.trans hclose⟩
  | cons a front => exact .inl ⟨a, front, hs, ht⟩

/-- Where the kinds differ, the part ends, and so the whole goes on behind it. -/
lemma front_eq (h : x.Echo depth s t) (hkind : s.cursor.current.kind ≠ t.cursor.current.kind) :
    s.cursor.current.kind = Token.frontKind x.rest := by
  obtain ⟨front, hs, ht⟩ := h.ahead
  rw [Cursor.current_eq h.whole.eof, Cursor.current_eq h.part.eof, hs, ht] at hkind
  rw [Cursor.current_eq h.whole.eof, hs]
  cases front with
  | nil => rfl
  | cons a front => exact absurd rfl hkind

/-- A choice is the same in the part and in the whole, or the part is at its end. -/
lemma blind {α : Sort*} (h : x.Echo depth s t) {f : TokenKind → α} (hblind : TokenKind.Blind f) :
    f s.cursor.current.kind = f t.cursor.current.kind ∨ x.Halted t := by
  rcases hblind.alike h.alike with heq | ⟨heof, hbegins⟩
  · exact .inl heq
  · have hne : s.cursor.current.kind ≠ t.cursor.current.kind := by
      rw [heof]
      intro hkind
      simp [hkind, TokenKind.beginsStat] at hbegins
    exact .inr ⟨h.front_eq hne ▸ hbegins, h.part, heof⟩

lemma next_eq_or (h : x.Echo depth s t) (hkind : t.cursor.current.kind.looksAhead = true) :
    t.cursor.next.kind = s.cursor.next.kind
      ∨ s.cursor.next.kind = Token.frontKind x.rest
        ∧ t.cursor.next.kind = Token.frontKind x.close := by
  have heof : t.cursor.current.kind ≠ .eof := by
    intro heof
    rw [heof] at hkind
    cases hkind
  rcases h.exists_current heof with ⟨a, front, hs, ht⟩ | ⟨a, close, ha, -, ht⟩
  · rw [Cursor.next_eq h.whole.eof, Cursor.next_eq h.part.eof, hs, ht]
    cases front with
    | nil => exact .inr ⟨rfl, rfl⟩
    | cons b front => exact .inl rfl
  · rw [Cursor.current, ht] at hkind
    exact absurd hkind (by simpa using ha)

lemma alike_next (h : x.Echo depth s t) (hkind : t.cursor.current.kind.looksAhead = true) :
    TokenKind.Alike s.cursor.next.kind t.cursor.next.kind := by
  rcases h.next_eq_or hkind with heq | ⟨hs, ht⟩
  · exact .inl heq
  · rw [hs, ht]
    exact x.ends

/-- Where the part is followed by something, it does not end before the next token. -/
lemma next_eq (h : x.Echo depth s t) (hkind : t.cursor.current.kind.looksAhead = true)
    (hclose : Token.frontKind x.close ≠ .eof) : t.cursor.next.kind = s.cursor.next.kind := by
  rcases h.next_eq_or hkind with heq | ⟨hs, ht⟩
  · exact heq
  · rw [hs, ht]
    exact x.ends.resolve_right fun hends => hclose hends.1

lemma enter (h : x.Echo depth s t) (hs : s.depth < maxDepth) (ht : t.depth < maxDepth) :
    x.Echo (depth + 1) { s with depth := s.depth + 1 } { t with depth := t.depth + 1 } :=
  { h with
    whole := h.whole.atDepth hs
    part := h.part.atDepth ht
    depth_whole := by simp only [h.depth_whole]; omega
    depth_part := congrArg (· + 1) h.depth_part }

lemma leave (h : x.Echo (depth + 1) s t) :
    x.Echo depth (Parse.leave.run s).2 (Parse.leave.run t).2 :=
  { h with
    whole := h.whole.outward
    part := h.part.outward
    depth_whole := Nat.sub_eq_of_eq_add (by rw [h.depth_whole]; omega)
    depth_part := Nat.sub_eq_of_eq_add h.depth_part }

/-- Where the limit is met in the whole. -/
lemma refused (h : x.Echo depth s t) (hlimited : x.limited) : x.Gave
    { s with
      cursor := s.cursor.finish
      log := Parse.told s (refusal s.cursor.current)
      tooDeep := true } := by
  have hlog : s.log.entries = [] := h.log_whole ▸ x.quiet hlimited
  refine ⟨hlimited, rfl, refusal s.cursor.current, ?_, rfl⟩
  rw [Parse.told_first h.tooDeep hlog]
  exact List.mem_singleton_self _

lemma length_le (h : x.Echo depth s t) (hclose : x.close = []) :
    t.cursor.ahead.length ≤ s.cursor.ahead.length := by
  obtain ⟨front, hs, ht⟩ := h.ahead
  simp [hs, ht, hclose]

end Echo

variable {x : Excerpt} {depth : Nat} {s t : ParseState}

/-! ### Levels -/

lemma Gave.leave (h : x.Gave s) : x.Gave (Parse.leave.run s).2 :=
  ⟨h.limited, h.tooDeep, h.reported⟩

lemma Lost.leave (h : x.Lost t) : x.Lost (Parse.leave.run t).2 := by
  rcases h with hlog | hpassed
  · exact .reported hlog
  · exact .passed hpassed

lemma Halted.leave (h : x.Halted t) : x.Halted (Parse.leave.run t).2 :=
  ⟨h.begins, h.valid.outward, h.eof⟩

/-- A level is entered in the whole and in the part, or the nesting limit is met. -/
lemma Echo.run_nested {α : Type} (h : x.Echo depth s t) (refused refused' : List Token → Parse α)
    (inner inner' : Parse α) [hsteady : ∀ tokens, Parse.Steady (refused tokens)]
    [hsteady' : ∀ tokens, Parse.Steady (refused' tokens)] :
    x.Gave ((Parse.nested refused inner).run s).2
      ∨ x.Lost ((Parse.nested refused' inner').run t).2
      ∨ (Parse.nested refused inner).run s
          = ((inner.run { s with depth := s.depth + 1 }).1,
            (Parse.leave.run (inner.run { s with depth := s.depth + 1 }).2).2)
        ∧ (Parse.nested refused' inner').run t
          = ((inner'.run { t with depth := t.depth + 1 }).1,
            (Parse.leave.run (inner'.run { t with depth := t.depth + 1 }).2).2)
        ∧ x.Echo (depth + 1) { s with depth := s.depth + 1 }
          { t with depth := t.depth + 1 } := by
  by_cases hpart : maxDepth ≤ t.depth
  · rw [Parse.run_nested_refused h.going hpart]
    have hlost := Parse.told_ne_nil (fun hgave => (h.part.gaveUp hgave).2)
      (refusal t.cursor.current)
    exact .inr (.inl (.reported (Parse.Steady.log_ne_nil _ hlost)))
  · by_cases hwhole : maxDepth ≤ s.depth
    · have hgap : 0 < x.gap := by
        have := h.depth_whole
        have := h.depth_part
        omega
      rw [Parse.run_nested_refused h.tooDeep hwhole]
      exact .inl ((h.refused (x.deeper hgap)).onward ((hsteady _).onward _))
    · have hs := Nat.lt_of_not_le hwhole
      have ht := Nat.lt_of_not_le hpart
      exact .inr (.inr ⟨Parse.run_nested_entered h.tooDeep hs,
        Parse.run_nested_entered h.going ht, h.enter hs ht⟩)

/-- Not as many tokens are ahead in the part as in the whole, but the bounds of loops are ample in
both. -/
lemma Echo.run_remaining {α : Type} (h : x.Echo depth s t) {f g : Nat → Parse α}
    (hf : Parse.Ample (depth + x.gap) f) (hg : Parse.Ample depth g) :
    ∃ count, (Parse.remaining >>= f).run s = (f count).run s
      ∧ (Parse.remaining >>= g).run t = (g count).run t := by
  have hs := hf.run_eq h.whole h.depth_whole
    (Nat.le_max_left s.cursor.ahead.length t.cursor.ahead.length)
  have ht := hg.run_eq h.part h.depth_part
    (Nat.le_max_right s.cursor.ahead.length t.cursor.ahead.length)
  exact ⟨_, hs.symm, ht.symm⟩

end Excerpt

end LuaFront
