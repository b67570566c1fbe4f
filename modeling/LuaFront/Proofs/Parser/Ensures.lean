import LuaFront.Grammar.Level
import LuaFront.Proofs.Parser.Reached
import LuaFront.Proofs.Parser.Running

/-!
Running a parser step by step. A parser ensures a condition on its result and the state after it,
if it is run in a state that meets a condition; the rules here follow the way parsers are put
together. Each step of a parser adds to the parts reached what it has read.
-/

namespace LuaFront

namespace Parse

open ParseState

variable {α β : Type}

/-- Run where `pre` holds, the parser gives a result and a state with `post`. -/
def Ensures (pre : ParseState → Prop) (p : Parse α) (post : α → ParseState → Prop) : Prop :=
  ∀ s, pre s → post (p.run s).1 (p.run s).2

namespace Ensures

variable {pre mid : ParseState → Prop} {post : α → ParseState → Prop}
  {after : β → ParseState → Prop} {facts : α → Prop} {p : Parse α} {f : α → Parse β}

lemma ret {a : α} (h : ∀ s, pre s → post a s) : Ensures pre (pure a) post := h

lemma bind (hp : Ensures pre p post) (hf : ∀ a, Ensures (post a) (f a) after) :
    Ensures pre (p >>= f) after := fun s hs => hf _ _ (hp s hs)

/-- What does not depend on the state is kept as a fact about the result. -/
lemma bindFact (hp : Ensures pre p fun a s => facts a ∧ post a s)
    (hf : ∀ a, facts a → Ensures (post a) (f a) after) : Ensures pre (p >>= f) after :=
  hp.bind fun a s hs => hf a hs.1 s hs.2

lemma consequence {post' : α → ParseState → Prop} (hp : Ensures mid p post)
    (hpre : ∀ s, pre s → mid s) (hpost : ∀ a s, post a s → post' a s) : Ensures pre p post' :=
  fun s hs => hpost _ _ (hp s (hpre s hs))

lemma weaken (hp : Ensures mid p post) (hpre : ∀ s, pre s → mid s) : Ensures pre p post :=
  hp.consequence hpre fun _ _ => id

end Ensures

/-! ### Looking ahead -/

/-- The current token is of a kind. -/
def Facing (kind : TokenKind) (pre : ParseState → Prop) (s : ParseState) : Prop :=
  s.cursor.current.kind = kind ∧ pre s

lemma Ensures.facing {pre : ParseState → Prop} {p : Parse α} {post : α → ParseState → Prop}
    (h : ∀ kind, Ensures (Facing kind pre) p post) : Ensures pre p post :=
  fun s hs => h _ s ⟨rfl, hs⟩

section Looking

variable {pre : ParseState → Prop} {post : α → ParseState → Prop}

lemma currentKind_ensures {f : TokenKind → Parse α}
    (h : ∀ kind, Ensures (Facing kind pre) (f kind) post) :
    Ensures pre (currentKind >>= f) post := fun s hs => h _ s ⟨rfl, hs⟩

lemma currentKind_facing {kind : TokenKind} {f : TokenKind → Parse α}
    (h : Ensures (Facing kind pre) (f kind) post) :
    Ensures (Facing kind pre) (currentKind >>= f) post := by
  rintro s ⟨rfl, hs⟩
  exact h s ⟨rfl, hs⟩

lemma nextKind_ensures {f : TokenKind → Parse α}
    (h : ∀ kind, Ensures (fun s => s.cursor.next.kind = kind ∧ pre s) (f kind) post) :
    Ensures pre (nextKind >>= f) post := fun s hs => h _ s ⟨rfl, hs⟩

lemma atKind_ensures {kind : TokenKind} {f : Bool → Parse α}
    (ht : Ensures (Facing kind pre) (f true) post)
    (hf : Ensures (fun s => s.cursor.current.kind ≠ kind ∧ pre s) (f false) post) :
    Ensures pre (atKind kind >>= f) post := by
  intro s hs
  rw [run_atKind]
  by_cases h : s.cursor.current.kind = kind
  · simpa [h] using ht s ⟨h, hs⟩
  · simpa [h] using hf s ⟨h, hs⟩

lemma lastStop_ensures {f : Offset → Parse α}
    (h : ∀ offset, Ensures (fun s => s.cursor.lastStop = offset ∧ pre s) (f offset) post) :
    Ensures pre (lastStop >>= f) post := fun s hs => h _ s ⟨rfl, hs⟩

lemma lastStop_facing {kind : TokenKind} {f : Offset → Parse α}
    (h : ∀ offset, Ensures (Facing kind fun s => s.cursor.lastStop = offset ∧ pre s) (f offset)
      post) :
    Ensures (Facing kind pre) (lastStop >>= f) post := fun s hs => h _ s ⟨hs.1, rfl, hs.2⟩

lemma remaining_ensures {f : Nat → Parse α}
    (h : ∀ count, Ensures (fun s => s.cursor.ahead.length = count ∧ pre s) (f count) post) :
    Ensures pre (remaining >>= f) post := fun s hs => h _ s ⟨rfl, hs⟩

end Looking

/-! ### Consuming tokens -/

section Steps

variable {depth n : Nat} {s₀ : ParseState} {good : Prop} {ps : List Part} {kind : TokenKind}

lemma ahead_of_facing {s : ParseState} (hs : s.Valid) (hfacing : s.cursor.current.kind = kind)
    (hkind : kind ≠ .eof) : ∃ rest, s.cursor.ahead = s.cursor.current :: rest := by
  rcases h : s.cursor.ahead with _ | ⟨t, rest⟩
  · have hcurrent : s.cursor.current = s.cursor.eof := by simp [Cursor.current, h]
    exact absurd (hfacing.symm.trans (hcurrent ▸ hs.eof)) hkind
  · exact ⟨rest, by simp [Cursor.current, h]⟩

lemma advance_ensures (hkind : kind ≠ .eof) :
    Ensures (Facing kind (Reached depth s₀ n good ps)) advance
      fun t s => t.kind = kind ∧ Reached depth s₀ (n + 1) good (ps ++ [Part.token t]) s := by
  rintro s ⟨hfacing, h⟩
  obtain ⟨rest, hahead⟩ := ahead_of_facing h.valid hfacing hkind
  have hkind' : s.cursor.current.kind ≠ .eof := hfacing ▸ hkind
  have hadvance := Cursor.advance_of_ahead hahead hkind'
  rw [run_advance]
  refine ⟨hfacing, ?_⟩
  have hclean : Clean { s with cursor := s.cursor.advance } → s.Clean ∧
      s.cursor.current.isMissing = false ∧ s.cursor.current.kind ≠ .invalid := by
    rintro ⟨hlog, hread⟩
    rw [hadvance] at hread
    simp only [List.mem_cons, forall_eq_or_imp] at hread
    exact ⟨⟨hlog, hread.2⟩, hread.1⟩
  have hdeep : s.tooDeep = false := h.valid.going hkind'
  refine { h with
    valid := ?_, reads := ?_, pos := ?_, form := ?_, complete := ?_, good := ?_, watched := ?_ }
  · refine { h.valid with eof := by rw [hadvance]; exact h.valid.eof, gaveUp := fun hgave => ?_ }
    exact absurd (h.valid.gaveUp hgave).1 hkind'
  · simpa [Part.marks] using h.reads.token hahead hkind'
  · have := h.pos
    simp only [hadvance, Cursor.pos, List.length_cons] at this ⊢
    omega
  · simpa [or_imp, forall_and, Part.All] using h.form
  · intro hs
    simpa [or_imp, forall_and, Part.Complete] using
      ⟨h.complete (hclean hs).1, (hclean hs).2⟩
  · exact fun hs => h.good (hclean hs).1
  · have hwatched : Watched s₀ ps { s with cursor := s.cursor.advance } :=
      h.watched.step h.tooDeep hdeep hdeep id
    exact hwatched.mono (Part.adds_of_kept_eq (by simp [Part.kept, Part.node?]))

/-- The next token is the current one after the current one is consumed. -/
lemma advance_facing {next : TokenKind} (hkind : kind ≠ .eof) :
    Ensures (fun s => s.cursor.next.kind = next ∧ Facing kind (Reached depth s₀ n good ps) s)
      advance
      fun t s =>
        t.kind = kind ∧ Facing next (Reached depth s₀ (n + 1) good (ps ++ [Part.token t])) s := by
  rintro s ⟨hnext, hfacing, h⟩
  obtain ⟨rest, hahead⟩ := ahead_of_facing h.valid hfacing hkind
  obtain ⟨ht, h'⟩ := advance_ensures hkind s ⟨hfacing, h⟩
  refine ⟨ht, ?_, h'⟩
  have hcursor : (advance.run s).2.cursor = s.cursor.advance := rfl
  rw [hcursor, Cursor.advance_of_ahead hahead (hfacing ▸ hkind), ← hnext]
  simp only [Cursor.next, hahead, List.tail_cons]
  rfl

/-- A token of a kind is consumed, or nothing is. -/
lemma take?_ensures (hkind : kind ≠ .eof) :
    Ensures (Reached depth s₀ n good ps) (take? kind)
      fun found s => (∀ t ∈ found, t.kind = kind)
        ∧ Reached depth s₀ n good (ps ++ found.toList.map .token) s := by
  refine atKind_ensures ?_ ?_
  · refine (advance_ensures hkind).bindFact fun t ht => Ensures.ret fun s hs => ⟨?_, ?_⟩
    · simpa using ht
    · exact hs.mono (Nat.le_succ n)
  · exact Ensures.ret fun s hs => ⟨by simp, by simpa using hs.2⟩

/-! ### Errors -/

/-- After an error nothing is clean: if it was not reported, then another one was before. -/
lemma progress_error {s : ParseState} (h : Progress depth s₀ n good ps s) {d : Diagnostic}
    (hd : d.severity = .error) :
    (told s d).entries ≠ [] ∧ Progress depth s₀ n False ps { s with log := told s d } := by
  have hlog : (told s d).entries ≠ [] := told_ne_nil (fun hgave => (h.valid.gaveUp hgave).2) d
  refine ⟨hlog, { h with valid := ?_, log := ?_, complete := ?_, good := ?_ }⟩
  · refine { h.valid with
      gaveUp := fun hgave => ⟨(h.valid.gaveUp hgave).1, hlog⟩, severity := fun e he => ?_ }
    rcases mem_told he with he | rfl
    · exact h.valid.severity e he
    · exact hd
  · exact h.log.trans (told_onward s d)
  · exact fun hs => absurd hs.log hlog
  · exact fun hs => hlog hs.log

/-- An error other than that about the nesting limit. -/
lemma run_error {s : ParseState} (h : Reached depth s₀ n good ps s) (span : Span)
    {message : String} (hmessage : message ≠ limitMessage) (labels : List Label) :
    ∃ s', (error span message labels).run s = ((), s') ∧ s'.cursor = s.cursor
      ∧ Reached depth s₀ n False ps s' := by
  refine ⟨_, run_error_eq s span message labels, rfl, (progress_error h.toProgress rfl).2, ?_⟩
  cases hdeep : s.tooDeep with
  | true =>
    rw [told_of_gaveUp hdeep, ← hdeep]
    exact h.watched
  | false =>
    refine h.watched.step h.tooDeep hdeep rfl fun hquiet d hd => ?_
    rcases mem_told hd with hd | rfl
    · exact hquiet d hd
    · exact hmessage

lemma error_ensures {span : Span} {message : String} {labels : List Label}
    (hmessage : message ≠ limitMessage) :
    Ensures (Reached depth s₀ n good ps) (error span message labels)
      fun _ => Reached depth s₀ n False ps := by
  intro s h
  obtain ⟨s', hrun, -, h'⟩ := run_error h span hmessage labels
  rwa [hrun]

lemma errorIf_ensures {wrong : Bool} {span : Span} {message : String}
    (hmessage : message ≠ limitMessage) :
    Ensures (Reached depth s₀ n good ps) (errorIf wrong span message)
      fun _ => Reached depth s₀ n (good ∧ wrong = false) ps := by
  unfold errorIf
  split
  · refine (error_ensures hmessage).consequence (fun _ => id) fun _ _ hs => hs.imp fun _ => ?_
    exact False.elim
  · next hright => exact Ensures.ret fun s hs => hs.imp fun _ hg => ⟨hg, by simpa using hright⟩

lemma errorExpected_ensures {what : String} {labels : List Label} :
    Ensures (Reached depth s₀ n good ps) (errorExpected what labels)
      fun _ => Reached depth s₀ n False ps :=
  fun s hs => error_ensures (expected_ne_limit _ _) s hs

/-- An error leaves the current token as it is. -/
lemma errorExpected_facing {what : String} {labels : List Label} :
    Ensures (Facing kind (Reached depth s₀ n good ps)) (errorExpected what labels)
      fun _ => Facing kind (Reached depth s₀ n False ps) := by
  rintro s ⟨hfacing, h⟩
  obtain ⟨s', hrun, hcursor, h'⟩ := run_error h s.cursor.current.span
    (expected_ne_limit what s.cursor.current.kind.describe) labels
  have hrun' : (errorExpected what labels).run s = ((), s') := hrun
  rw [hrun']
  exact ⟨hcursor ▸ hfacing, h'⟩

/-- A missing token stands where the last token ended. -/
lemma missing_ensures (hkind : kind ≠ .eof) :
    Ensures (Reached depth s₀ (n + 1) False ps)
      (do return Token.missing kind (← lastStop))
      fun t s => t.kind = kind ∧ Reached depth s₀ (n + 1) good (ps ++ [Part.token t]) s := by
  intro s h
  have hrun : (do return Token.missing kind (← lastStop) : Parse Token).run s
      = (.missing kind s.cursor.lastStop, s) := rfl
  rw [hrun]
  exact ⟨rfl, h.missing (Nat.succ_pos n) hkind⟩

lemma expect_ensures (hkind : kind ≠ .eof) :
    Ensures (Reached depth s₀ (n + 1) good ps) (expect kind)
      fun t s => t.kind = kind ∧ Reached depth s₀ (n + 1) good (ps ++ [Part.token t]) s := by
  refine (take?_ensures hkind).bindFact fun found hfound => ?_
  cases found with
  | some t => exact Ensures.ret fun s hs => ⟨hfound t rfl, hs⟩
  | none =>
    refine Ensures.bind errorExpected_ensures fun _ => ?_
    exact (missing_ensures hkind).weaken fun s hs => by simpa using hs

lemma expectClosing_ensures {opener : Token} (hkind : kind ≠ .eof) :
    Ensures (Reached depth s₀ (n + 1) good ps) (expectClosing kind opener)
      fun t s => t.kind = kind ∧ Reached depth s₀ (n + 1) good (ps ++ [Part.token t]) s := by
  refine (take?_ensures hkind).bindFact fun found hfound => ?_
  cases found with
  | some t => exact Ensures.ret fun s hs => ⟨hfound t rfl, hs⟩
  | none =>
    refine Ensures.bind errorExpected_ensures fun _ => ?_
    exact (missing_ensures hkind).weaken fun s hs => by simpa using hs

end Steps

/-! ### Levels -/

section Levels

variable {α : Type} {depth n m : Nat} {s₀ : ParseState} {good : Prop} {ps : List Part}
  {kind : TokenKind}

/-- Once the nesting limit is reported, the rest of the input is read as tokens. -/
lemma giveUp_progress {s : ParseState} (h : Progress depth s₀ n False ps s)
    (hlog : s.log.entries ≠ []) :
    Progress depth s₀ (n + s.cursor.remaining.length) False
      (ps ++ s.cursor.remaining.map .token)
      { s with cursor := s.cursor.finish, tooDeep := true } := by
  have hclean : ¬ Clean { s with cursor := s.cursor.finish, tooDeep := true } :=
    fun hs => hlog hs.log
  constructor
  · exact ⟨h.valid.eof, h.valid.depth, fun _ => ⟨Cursor.current_finish h.valid.eof, hlog⟩,
      h.valid.severity⟩
  · exact h.depth_eq
  · exact fun _ => rfl
  · exact h.log
  · simpa using h.reads.trans (Cursor.reads_finish s.cursor)
  · have := h.pos
    simp only [Cursor.pos, Cursor.finish, List.length_append, List.length_reverse] at this ⊢
    omega
  · simp only [List.mem_append, or_imp, forall_and, List.mem_map]
    refine ⟨h.form, ?_⟩
    rintro p ⟨t, -, rfl⟩
    trivial
  · exact fun hs => absurd hs hclean
  · exact fun hs => absurd hs hclean

lemma reached_atDepth {s : ParseState} {other : Nat} (h : Reached depth s₀ n good ps s)
    (hother : other ≤ maxDepth) : Reached other s₀ n good ps { s with depth := other } := by
  refine { h with
    valid := { h.valid with depth := hother }, depth_eq := rfl, complete := ?_, good := ?_,
    watched := ⟨h.watched.quiet, h.watched.gaveUp, h.watched.still⟩ }
  · exact fun hs => h.complete ⟨hs.log, hs.read⟩
  · exact fun hs => h.good ⟨hs.log, hs.read⟩

lemma leave_reached {s : ParseState} (h : Reached (depth + 1) s₀ n good ps s) :
    Reached depth s₀ n good ps (leave.run s).2 := by
  have hdepth : s.depth - 1 = depth := Nat.sub_eq_of_eq_add h.depth_eq
  have hrun : (leave.run s).2 = { s with depth := s.depth - 1 } := rfl
  rw [hrun, hdepth]
  exact reached_atDepth h (hdepth ▸ Nat.le_trans (Nat.sub_le _ _) h.valid.depth)

/-- What is known where tokens were given up. -/
structure Refused (depth : Nat) (s₀ : ParseState) (n : Nat) (ps : List Part) (tokens : List Token)
    (s : ParseState) : Prop extends Progress depth s₀ n False (ps ++ tokens.map .token) s where
  pending : Pending s₀ ps tokens s

/-- A parser runs one level further in, or what is made of the tokens given up stands in for it. -/
lemma nested_ensures {refused : List Token → Parse α} {inner : Parse α}
    {post : α → ParseState → Prop} (hm : m ≤ n + kind.lead)
    (hrefused : ∀ tokens, Ensures (Refused depth s₀ m ps tokens) (refused tokens) post)
    (hinner : Ensures (Facing kind (Reached (depth + 1) s₀ n good ps)) inner
      fun a s => post a (leave.run s).2) :
    Ensures (Facing kind (Reached depth s₀ n good ps)) (nested refused inner) post := by
  rintro s ⟨rfl, h⟩
  cases hdeep : s.tooDeep with
  | true =>
    rw [run_nested_gaveUp hdeep]
    -- the limit was exceeded before, so that no tokens are left to give up
    obtain ⟨heof, hlog⟩ := h.valid.gaveUp hdeep
    rw [heof] at hm
    have hfail : Reached depth s₀ m False ps s := (h.fail hlog).mono hm
    exact hrefused [] s ⟨by simpa using hfail.toProgress, h.watched.pending⟩
  | false =>
    by_cases hdepth : maxDepth ≤ s.depth
    · rw [run_nested_refused hdeep hdepth]
      obtain ⟨hlog, h'⟩ := progress_error h.toProgress (d := refusal s.cursor.current) rfl
      have hlead := Cursor.lead_le_remaining h.valid.eof
      refine hrefused _ _ ⟨(giveUp_progress h' hlog).mono ?_, ?_⟩
      · exact Nat.le_trans hm (Nat.add_le_add_left hlead n)
      · exact h.watched.giveUp h.tooDeep hdeep (told_added hdeep _)
    · have hinside : Reached (depth + 1) s₀ n good ps { s with depth := s.depth + 1 } := by
        have hnext := reached_atDepth h (Nat.lt_of_not_le hdepth)
        rwa [h.depth_eq] at hnext ⊢
      rw [run_nested_entered hdeep (Nat.lt_of_not_le hdepth)]
      exact hinner { s with depth := s.depth + 1 } ⟨rfl, hinside⟩

end Levels

end Parse

end LuaFront
