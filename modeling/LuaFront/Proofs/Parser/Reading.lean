import LuaFront.Grammar.Cursor
import LuaFront.Proofs.Tree.Layout

/-!
Reading tokens off a cursor. What a tree keeps of a stretch of tokens are these tokens in their
order; between them missing tokens and anchors may stand, each where the last token ended.
-/

namespace LuaFront

lemma Token.isMissing_missing {kind : TokenKind} {offset : Offset} (h : kind ≠ .eof) :
    (Token.missing kind offset).isMissing = true := by
  simp [isMissing, missing, h]

/-- How many tokens an expression takes for certain that begins with a token of a kind. -/
def TokenKind.lead (kind : TokenKind) : Nat := if kind.canBeginExpr then 1 else 0

namespace Cursor

lemma advance_of_ahead {c : Cursor} {t : Token} {rest : List Token} (h : c.ahead = t :: rest)
    (ht : t.kind ≠ .eof) : c.advance = ⟨t :: c.behind, rest, c.eof⟩ := by
  simp [advance, h, ht]

lemma advance_of_eof {c : Cursor} (h : c.current.kind = .eof) : c.advance = c := by
  rcases hahead : c.ahead with _ | ⟨t, rest⟩
  · simp [advance, hahead]
  · have ht : t.kind = .eof := by simpa [current, hahead] using h
    simp [advance, hahead, ht]

lemma remaining_of_eof {c : Cursor} (h : c.current.kind = .eof) : c.remaining = [] := by
  rcases hahead : c.ahead with _ | ⟨t, rest⟩
  · simp [remaining, hahead]
  · have ht : t.kind = .eof := by simpa [current, hahead] using h
    simp [remaining, hahead, ht]

lemma finish_of_eof {c : Cursor} (h : c.current.kind = .eof) : c.finish = c := by
  have hremaining := remaining_of_eof h
  have hahead : c.remaining ++ c.ahead.dropWhile (·.kind ≠ .eof) = c.ahead :=
    List.takeWhile_append_dropWhile
  rw [hremaining, List.nil_append] at hahead
  rw [finish, hremaining, hahead]
  rfl

lemma ahead_eq_nil {c : Cursor} (hkinds : ∀ t ∈ c.ahead, t.kind ≠ .eof)
    (heof : c.current.kind = .eof) : c.ahead = [] := by
  cases hahead : c.ahead with
  | nil => rfl
  | cons t rest =>
    have hkind := hkinds t (by simp [hahead])
    exact absurd (by simpa [Cursor.current, hahead] using heof) hkind

/-! ### Moving on -/

/-- The second place is the first one or a later one. -/
def Onward (c d : Cursor) : Prop :=
  ∃ l, c.ahead = l ++ d.ahead ∧ d.behind = l.reverse ++ c.behind ∧ d.eof = c.eof

namespace Onward

variable {c d e : Cursor}

lemma refl (c : Cursor) : c.Onward c := ⟨[], rfl, rfl, rfl⟩

lemma trans (h : c.Onward d) (h' : d.Onward e) : c.Onward e := by
  obtain ⟨l, hahead, hbehind, heof⟩ := h
  obtain ⟨l', hahead', hbehind', heof'⟩ := h'
  exact ⟨l ++ l', by simp [hahead, hahead'], by simp [hbehind, hbehind'], heof'.trans heof⟩

lemma advance (c : Cursor) : c.Onward c.advance := by
  by_cases hkind : c.current.kind = .eof
  · rw [advance_of_eof hkind]
    exact refl c
  · rcases hahead : c.ahead with _ | ⟨t, rest⟩
    · rw [show c.advance = c by simp [Cursor.advance, hahead]]
      exact refl c
    · have ht : t.kind ≠ .eof := by simpa [current, hahead] using hkind
      rw [advance_of_ahead hahead ht]
      exact ⟨[t], hahead, rfl, rfl⟩

lemma finish (c : Cursor) : c.Onward c.finish :=
  ⟨c.remaining, by simp [Cursor.finish, remaining], rfl, rfl⟩

lemma lastStop_le (h : c.Onward d) {n : Offset} (hc : c.lastStop ≤ n)
    (hahead : ∀ t ∈ c.ahead, t.span.stop ≤ n) : d.lastStop ≤ n := by
  obtain ⟨l, hl, hbehind, -⟩ := h
  rcases List.eq_nil_or_concat l with rfl | ⟨front, t, rfl⟩
  · have hsame : d.lastStop = c.lastStop := by rw [lastStop, lastStop, hbehind]; rfl
    rwa [hsame]
  · have hlast : d.lastStop = t.span.stop := by simp [lastStop, hbehind]
    rw [hlast]
    exact hahead t (by simp [hl])

/-- Going back to an earlier place. -/
lemma goTo_pos (h : c.Onward d) : d.goTo c.pos = c := by
  obtain ⟨l, hfront, hback, heof⟩ := h
  have hall : d.behind.reverse ++ d.ahead = c.behind.reverse ++ c.ahead := by
    simp [hfront, hback]
  have hpos : c.pos = c.behind.reverse.length := by simp [pos]
  simp only [goTo, hall, heof]
  rw [hpos, List.take_left, List.drop_left, List.reverse_reverse]

/-- No token comes or goes on the way. -/
lemma tokens_eq (h : c.Onward d) : d.tokens = c.tokens := by
  obtain ⟨l, hahead, hbehind, heof⟩ := h
  simp [tokens, hahead, hbehind, heof]

lemma length_le (h : c.Onward d) : d.ahead.length ≤ c.ahead.length := by
  obtain ⟨l, hfront, -⟩ := h
  simp [hfront]

lemma pos_le (h : c.Onward d) : c.pos ≤ d.pos := by
  obtain ⟨l, -, hbehind, -⟩ := h
  simp [pos, hbehind]

lemma pos_lt (h : c.Onward d) (hlt : d.ahead.length < c.ahead.length) : c.pos < d.pos := by
  obtain ⟨l, hahead, hbehind, -⟩ := h
  simp only [hahead, List.length_append] at hlt
  simp only [pos, hbehind, List.length_append, List.length_reverse]
  omega

end Onward

/-! ### Reading -/

/-- From one place to a later one the marks are read. Nothing stands before the first token. -/
inductive Reads (c : Cursor) : List Mark → Cursor → Prop
  | refl : Reads c [] c
  | token {ms : List Mark} {d : Cursor} {t : Token} {rest : List Token} :
    Reads c ms d → d.ahead = t :: rest → t.kind ≠ .eof → Reads c (ms ++ [.token t]) d.advance
  | missing {ms : List Mark} {d : Cursor} {kind : TokenKind} :
    Reads c ms d → kind ≠ .eof → 0 < d.pos →
    Reads c (ms ++ [.token (.missing kind d.lastStop)]) d
  | anchor {ms : List Mark} {d : Cursor} :
    Reads c ms d → 0 < d.pos → Reads c (ms ++ [.anchor d.lastStop]) d

namespace Reads

variable {c d e : Cursor} {ms ns : List Mark}

lemma trans (h : c.Reads ms d) (h' : d.Reads ns e) : c.Reads (ms ++ ns) e := by
  induction h' with
  | refl => simpa using h
  | token _ hahead hkind ih => simpa using ih.token hahead hkind
  | missing _ hkind hpos ih => simpa using ih.missing hkind hpos
  | anchor _ hpos ih => simpa using ih.anchor hpos

/-- The tokens between two places, which are consumed on the way. -/
lemma exists_consumed (h : c.Reads ms d) :
    ∃ l : List Token, c.ahead = l ++ d.ahead ∧ d.behind = l.reverse ++ c.behind ∧ d.eof = c.eof
      ∧ (∀ t ∈ l, t.kind ≠ .eof)
      ∧ (ms.filterMap Mark.token?).filter (!·.isMissing) = l.filter (!·.isMissing) := by
  induction h with
  | refl => exact ⟨[], by simp⟩
  | token _ hahead hkind ih =>
    next t rest _ =>
    obtain ⟨l, hfront, hback, heof, hkinds, hkept⟩ := ih
    rw [advance_of_ahead hahead hkind]
    refine ⟨l ++ [t], by simp [hfront, hahead], by simp [hback], heof, ?_, ?_⟩
    · simpa [or_imp, forall_and] using ⟨hkinds, hkind⟩
    · simp [Mark.token?, hkept]
  | missing _ hkind _ ih =>
    obtain ⟨l, hfront, hback, heof, hkinds, hkept⟩ := ih
    refine ⟨l, hfront, hback, heof, hkinds, ?_⟩
    simp [Mark.token?, Token.isMissing_missing hkind, hkept]
  | anchor _ _ ih => simpa [List.filterMap_cons, Mark.token?] using ih

/-- Reading moves on. -/
lemma onward (h : c.Reads ms d) : c.Onward d := by
  obtain ⟨l, hfront, hback, heof, -⟩ := h.exists_consumed
  exact ⟨l, hfront, hback, heof⟩

/-- A token, a missing one too, is where reading stops after it. -/
lemma lastStop_eq {t : Token} (h : c.Reads (ms ++ [.token t]) d) : d.lastStop = t.span.stop := by
  generalize hns : ms ++ [.token t] = ns at h
  cases h with
  | refl => simp at hns
  | token _ hahead hkind =>
    obtain ⟨-, h⟩ := List.append_inj' hns rfl
    simp only [List.cons.injEq, Mark.token.injEq, and_true] at h
    rw [advance_of_ahead hahead hkind, h]
    rfl
  | missing _ _ _ =>
    obtain ⟨-, h⟩ := List.append_inj' hns rfl
    simp only [List.cons.injEq, Mark.token.injEq, and_true] at h
    rw [h]
    rfl
  | anchor _ _ =>
    obtain ⟨-, h⟩ := List.append_inj' hns rfl
    simp at h

lemma eq_of_nil (h : c.Reads [] d) : d = c := by
  generalize hns : ([] : List Mark) = ns at h
  cases h with
  | refl => rfl
  | token | missing | anchor => simp at hns

/-- From the start of the input the first mark is the first token. -/
lemma head?_eq (h : c.Reads ms d) (hc : c.pos = 0) (hms : ms ≠ []) :
    ms.head? = c.ahead.head?.map .token := by
  have hsnoc : ∀ {ns : List Mark} {m : Mark} {d : Cursor}, c.Reads ns d → 0 < d.pos →
      (ns ≠ [] → ns.head? = c.ahead.head?.map .token) →
      (ns ++ [m]).head? = c.ahead.head?.map .token := by
    intro ns m d hns hpos ih
    have hne : ns ≠ [] := by
      rintro rfl
      rw [hns.eq_of_nil] at hpos
      omega
    rw [← ih hne]
    cases ns with
    | nil => exact absurd rfl hne
    | cons m' ns => rfl
  induction h with
  | refl => exact absurd rfl hms
  | token hreads hahead hkind ih =>
    next ns d t rest =>
    rcases ns with _ | ⟨m, ns⟩
    · rw [hreads.eq_of_nil] at hahead
      simp [hahead]
    · simpa using ih (by simp)
  | missing hreads _ hpos ih => exact hsnoc hreads hpos ih
  | anchor hreads hpos ih => exact hsnoc hreads hpos ih

/-- What stands in a tree was in the text, or stands for something missing. -/
lemma mem_behind (h : c.Reads ms d) {t : Token} (ht : .token t ∈ ms) :
    t ∈ d.behind ∨ ∃ kind offset, kind ≠ .eof ∧ t = .missing kind offset := by
  induction h with
  | refl => simp at ht
  | token _ hahead hkind ih =>
    rw [advance_of_ahead hahead hkind]
    simp only [List.mem_append, List.mem_singleton, Mark.token.injEq] at ht
    rcases ht with ht | rfl
    · exact (ih ht).imp_left (List.mem_cons_of_mem _)
    · exact .inl List.mem_cons_self
  | missing _ hkind _ ih =>
    simp only [List.mem_append, List.mem_singleton, Mark.token.injEq] at ht
    rcases ht with ht | rfl
    · exact ih ht
    · exact .inr ⟨_, _, hkind, rfl⟩
  | anchor _ _ ih => exact ih (by simpa using ht)

end Reads

/-- What is given up is read too. -/
lemma reads_finish (c : Cursor) : c.Reads (c.remaining.map .token) c.finish := by
  obtain ⟨behind, ahead, eof⟩ := c
  induction ahead generalizing behind with
  | nil => exact .refl
  | cons t rest ih =>
    by_cases ht : t.kind = .eof
    · simp [remaining, finish, ht, Reads.refl]
    · have hahead : (Cursor.mk behind (t :: rest) eof).ahead = t :: rest := rfl
      have hstep := (Reads.refl (c := ⟨behind, t :: rest, eof⟩)).token hahead ht
      rw [advance_of_ahead hahead ht] at hstep
      simpa [remaining, finish, ht] using hstep.trans (ih (t :: behind))

lemma current_finish {c : Cursor} (h : c.eof.kind = .eof) : c.finish.current.kind = .eof := by
  obtain ⟨behind, ahead, eof⟩ := c
  induction ahead with
  | nil => exact h
  | cons t rest ih =>
    by_cases ht : t.kind = .eof
    · simp [current, finish, ht]
    · simpa [current, finish, ht] using ih h

lemma lead_le_remaining {c : Cursor} (h : c.eof.kind = .eof) :
    c.current.kind.lead ≤ c.remaining.length := by
  rcases hahead : c.ahead with _ | ⟨t, rest⟩
  · simp [current, hahead, h, TokenKind.lead, TokenKind.canBeginExpr]
  · by_cases ht : t.kind = .eof
    · simp [current, hahead, ht, TokenKind.lead, TokenKind.canBeginExpr]
    · have hlead : t.kind.lead ≤ 1 := by unfold TokenKind.lead; split <;> omega
      simp only [current, remaining, hahead, List.head?_cons, Option.getD_some]
      simp only [ht, List.takeWhile_cons, ne_eq, not_false_eq_true, decide_true, if_true,
        List.length_cons]
      omega

/-! ### Places -/

/-- The tokens ahead stand in the order of the text, after the last one consumed. -/
def Ordered (c : Cursor) : Prop := ∃ stop, Laid c.lastStop (c.ahead.map .token) stop

/-- What is read of ordered tokens is laid out, and ends where the last token ended. -/
lemma Reads.laid {c d : Cursor} {ms : List Mark} (h : c.Reads ms d) (hc : c.Ordered) :
    Laid c.lastStop ms d.lastStop ∧ d.Ordered := by
  induction h with
  | refl => exact ⟨rfl, hc⟩
  | token _ hahead hkind ih =>
    obtain ⟨hlaid, stop, hrest⟩ := ih
    rw [hahead] at hrest
    obtain ⟨hle, hwidth, hrest⟩ := hrest
    rw [advance_of_ahead hahead hkind]
    exact ⟨Laid.append_iff.2 ⟨_, hlaid, hle, hwidth, rfl⟩, stop, hrest⟩
  | missing _ _ _ ih =>
    exact ⟨Laid.append_iff.2 ⟨_, ih.1, Nat.le_refl _, Nat.le_refl _, rfl⟩, ih.2⟩
  | anchor _ _ ih => exact ⟨Laid.append_iff.2 ⟨_, ih.1, rfl, rfl⟩, ih.2⟩

end Cursor

end LuaFront
