import LuaFront.Proofs.Acceptance.Chains
import LuaFront.Proofs.Parser.Ensures
import LuaFront.Proofs.Parser.Steady

/-!
Running a parser on a word that it accepts. As long as the nesting limit is not hit, every step
finds the token that it looks for, and nothing is reported.
-/

namespace LuaFront

/-- Nothing was reported or given up, and the tokens ahead spell a word. -/
structure ParseState.Ready (depth : Nat) (w : List TokenKind) (s : ParseState) : Prop where
  depth_eq : s.depth = depth
  limit : s.depth ≤ maxDepth
  tooDeep : s.tooDeep = false
  log : s.log.entries = []
  eof : s.cursor.eof.kind = .eof
  ahead : s.cursor.ahead.map (·.kind) = w

namespace ParseState.Ready

variable {depth : Nat} {w : List TokenKind} {k : TokenKind} {s : ParseState}

lemma currentKind_eq (h : Ready depth w s) : s.cursor.current.kind = .front w := by
  rw [← h.ahead, Cursor.current, TokenKind.front]
  cases s.cursor.ahead with
  | nil => exact h.eof
  | cons t rest => rfl

lemma nextKind_eq (h : Ready depth w s) : s.cursor.next.kind = .front w.tail := by
  rw [← h.ahead, Cursor.next, TokenKind.front]
  rcases s.cursor.ahead with _ | ⟨t, _ | ⟨u, rest⟩⟩
  · exact h.eof
  · exact h.eof
  · rfl

lemma advance (h : Ready depth (k :: w) s) (hk : k ≠ .eof) :
    Ready depth w { s with cursor := s.cursor.advance } := by
  obtain ⟨t, rest, hahead, rfl, rfl⟩ := List.map_eq_cons_iff.1 h.ahead
  have hadvance := Cursor.advance_of_ahead hahead hk
  exact { h with eof := by simpa [hadvance] using h.eof, ahead := by simp [hadvance] }

lemma leave (h : Ready (depth + 1) w s) : Ready depth w (Parse.leave.run s).2 :=
  { h with
    depth_eq := Nat.sub_eq_of_eq_add h.depth_eq
    limit := Nat.le_trans (Nat.sub_le _ _) h.limit }

end ParseState.Ready

namespace Parse

open ParseState

variable {α β : Type} {depth : Nat} {w : List TokenKind} {k : TokenKind}
  {pre : ParseState → Prop} {p : Parse α} {mid : α → ParseState → Prop} {f : α → Parse β}
  {post : β → ParseState → Prop}

/-- Run where `pre` holds, the parser gives up, or gives a result and a state with `post`. -/
def Proceeds (pre : ParseState → Prop) (p : Parse α) (post : α → ParseState → Prop) : Prop :=
  Ensures pre p fun a s => s.tooDeep = false → post a s

namespace Proceeds

lemma ret {a : β} (h : ∀ s, pre s → post a s) : Proceeds pre (pure a) post :=
  fun s hs _ => h s hs

/-- If the first of two parsers gives up, the second does not take that back. -/
lemma bind [h : ∀ a, Steady (f a)] (hp : Proceeds pre p mid)
    (hf : ∀ a, Proceeds (mid a) (f a) post) : Proceeds pre (p >>= f) post := by
  intro s hs hdeep
  refine hf _ _ (hp s hs ?_) hdeep
  cases hgave : (p.run s).2.tooDeep with
  | false => rfl
  | true =>
    have hkept := Steady.keeps (f (p.run s).1) (p.run s).2 hgave
    exact absurd (hdeep.symm.trans hkept) Bool.false_ne_true

/-- What does not depend on the state is kept as a fact about the result. -/
lemma bindFact {facts : α → Prop} [h : ∀ a, Steady (f a)]
    (hp : Proceeds pre p fun a s => facts a ∧ mid a s)
    (hf : ∀ a, facts a → Proceeds (mid a) (f a) post) : Proceeds pre (p >>= f) post :=
  hp.bind fun a s hs => hf a hs.1 s hs.2

lemma imp {post' : β → ParseState → Prop} {p : Parse β} (hp : Proceeds pre p post)
    (hpost : ∀ a s, post a s → post' a s) : Proceeds pre p post' :=
  fun s hs hdeep => hpost _ _ (hp s hs hdeep)

/-! ### Looking ahead -/

lemma currentKind (hk : .front w = k) {f : TokenKind → Parse β}
    (h : Proceeds (Ready depth w) (f k) post) :
    Proceeds (Ready depth w) (Parse.currentKind >>= f) post := by
  intro s hs
  rw [run_currentKind, hs.currentKind_eq, hk]
  exact h s hs

lemma nextKind (hk : .front w.tail = k) {f : TokenKind → Parse β}
    (h : Proceeds (Ready depth w) (f k) post) :
    Proceeds (Ready depth w) (Parse.nextKind >>= f) post := by
  intro s hs
  rw [run_nextKind, hs.nextKind_eq, hk]
  exact h s hs

lemma atKind {found : Bool} (hk : decide (.front w = k) = found) {f : Bool → Parse β}
    (h : Proceeds (Ready depth w) (f found) post) :
    Proceeds (Ready depth w) (Parse.atKind k >>= f) post := by
  intro s hs
  rw [run_atKind, hs.currentKind_eq, hk]
  exact h s hs

lemma lastStop {f : Offset → Parse β} (h : ∀ offset, Proceeds pre (f offset) post) :
    Proceeds pre (Parse.lastStop >>= f) post := fun s hs => h _ s hs

lemma current {f : Token → Parse β} (h : ∀ t, Proceeds pre (f t) post) :
    Proceeds pre (Parse.current >>= f) post := fun s hs => h _ s hs

lemma remaining {f : Nat → Parse β} (h : Proceeds (Ready depth w) (f w.length) post) :
    Proceeds (Ready depth w) (Parse.remaining >>= f) post := by
  intro s hs
  have hlength : s.cursor.ahead.length = w.length := by rw [← hs.ahead, List.length_map]
  rw [run_remaining, hlength]
  exact h s hs

/-! ### Consuming tokens -/

lemma advance (hk : k ≠ .eof) {f : Token → Parse β}
    (h : ∀ t, Proceeds (Ready depth w) (f t) post) :
    Proceeds (Ready depth (k :: w)) (Parse.advance >>= f) post :=
  fun _ hs => h _ _ (hs.advance hk)

lemma take (hk : k ≠ .eof) {f : Option Token → Parse β}
    (h : ∀ t, Proceeds (Ready depth w) (f (some t)) post) :
    Proceeds (Ready depth (k :: w)) (take? k >>= f) post := by
  have htrue : decide (TokenKind.front (k :: w) = k) = true := by simp [TokenKind.front]
  exact atKind (f := fun b => (if b then some <$> Parse.advance else pure none) >>= f) htrue
    (advance hk h)

lemma takeNone (hk : .front w ≠ k) {f : Option Token → Parse β}
    (h : Proceeds (Ready depth w) (f none) post) :
    Proceeds (Ready depth w) (take? k >>= f) post :=
  atKind (f := fun b => (if b then some <$> Parse.advance else pure none) >>= f)
    (decide_eq_false hk) h

lemma expect (hk : k ≠ .eof) {f : Token → Parse β}
    (h : ∀ t, Proceeds (Ready depth w) (f t) post) :
    Proceeds (Ready depth (k :: w)) (Parse.expect k >>= f) post := by
  rw [Parse.expect, bind_assoc]
  exact take hk h

lemma expectClosing (hk : k ≠ .eof) {opener : Token} {f : Token → Parse β}
    (h : ∀ t, Proceeds (Ready depth w) (f t) post) :
    Proceeds (Ready depth (k :: w)) (Parse.expectClosing k opener >>= f) post := by
  rw [Parse.expectClosing, bind_assoc]
  exact take hk h

lemma errorIf {span : Span} {message : String} {f : Unit → Parse β}
    (h : Proceeds pre (f ()) post) :
    Proceeds pre (Parse.errorIf false span message >>= f) post := h

/-! ### Levels -/

/-- Where a further level is refused, the parser gives up. -/
lemma nested {refused : List Token → Parse β} [hsteady : ∀ tokens, Steady (refused tokens)]
    {inner : Parse β}
    (h : Proceeds (Ready (depth + 1) w) inner fun b s => post b (leave.run s).2) :
    Proceeds (Ready depth w) (Parse.nested refused inner) post := by
  intro s hs hdeep
  by_cases hdepth : maxDepth ≤ s.depth
  · rw [run_nested_refused hs.tooDeep hdepth, Steady.keeps (refused _) _ rfl] at hdeep
    exact absurd hdeep.symm Bool.false_ne_true
  · have hdepth := Nat.lt_of_not_le hdepth
    rw [run_nested_entered hs.tooDeep hdepth] at hdeep ⊢
    refine h _ { hs with depth_eq := ?_, limit := hdepth } hdeep
    exact congrArg (· + 1) hs.depth_eq

end Proceeds

end Parse

end LuaFront
