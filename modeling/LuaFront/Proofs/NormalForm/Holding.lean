import LuaFront.Proofs.Acceptance.Running
import LuaFront.Proofs.NormalForm.Erased

/-!
Running a parser on known tokens. What is known of the tokens ahead is known of those that a step
consumes; so a tree is known that is made of them, but for places and trivia.
-/

namespace LuaFront

/-- Nothing was reported or given up, and the tokens ahead are known. -/
structure ParseState.Holding (depth : Nat) (w : List Token) (s : ParseState) : Prop where
  ready : Ready depth (w.map (·.kind)) s
  ahead : s.cursor.ahead.map Token.bare = w

namespace ParseState.Holding

variable {depth : Nat} {w : List Token} {t : Token} {s : ParseState}

lemma advance (h : Holding depth (t :: w) s) (ht : t.kind ≠ .eof) :
    s.cursor.current.bare = t ∧ Holding depth w { s with cursor := s.cursor.advance } := by
  obtain ⟨u, rest, hahead, hu, hrest⟩ := List.map_eq_cons_iff.1 h.ahead
  have hkind : u.kind ≠ .eof := by
    rw [← hu] at ht
    exact ht
  have hadvance := Cursor.advance_of_ahead hahead hkind
  refine ⟨?_, h.ready.advance ht, ?_⟩
  · rw [Cursor.current, hahead, ← hu]
    rfl
  · rw [hadvance, ← hrest]

lemma leave (h : Holding (depth + 1) w s) : Holding depth w (Parse.leave.run s).2 :=
  ⟨h.ready.leave, h.ahead⟩

end ParseState.Holding

namespace Parse

open ParseState

variable {α β : Type} {depth : Nat} {w v rest : List Token} {t : Token} {k : TokenKind}
  {p : Parse α} {f : α → Parse β} {P P' : α → Prop} {Q : β → Prop}

/-- In front of some tokens the parser consumes others and gives a result with a property, unless
it gives up. -/
def Consumes (depth : Nat) (p : Parse α) (w rest : List Token) (P : α → Prop) : Prop :=
  Proceeds (Holding depth (w ++ rest)) p fun a s => P a ∧ Holding depth rest s

namespace Consumes

lemma ret {b : β} (h : Q b) : Consumes depth (pure b) [] rest Q :=
  Proceeds.ret fun _ hs => ⟨h, hs⟩

lemma imp (hp : Consumes depth p w rest P) (h : ∀ a, P a → P' a) : Consumes depth p w rest P' :=
  Proceeds.imp hp fun a _ ⟨ha, hs⟩ => ⟨h a ha, hs⟩

lemma bind [h : ∀ a, Steady (f a)] (hp : Consumes depth p w (v ++ rest) P)
    (hf : ∀ a, P a → Consumes depth (f a) v rest Q) :
    Consumes depth (p >>= f) (w ++ v) rest Q := by
  rw [Consumes, List.append_assoc]
  exact Proceeds.bindFact hp hf

/-! ### Looking ahead -/

lemma currentKind (hk : .front ((w ++ rest).map (·.kind)) = k) {f : TokenKind → Parse β}
    (h : Consumes depth (f k) w rest Q) :
    Consumes depth (Parse.currentKind >>= f) w rest Q := by
  intro s hs
  rw [run_currentKind, hs.ready.currentKind_eq, hk]
  exact h s hs

lemma nextKind (hk : .front ((w ++ rest).map (·.kind)).tail = k) {f : TokenKind → Parse β}
    (h : Consumes depth (f k) w rest Q) : Consumes depth (Parse.nextKind >>= f) w rest Q := by
  intro s hs
  rw [run_nextKind, hs.ready.nextKind_eq, hk]
  exact h s hs

lemma atKind {found : Bool} (hk : decide (.front ((w ++ rest).map (·.kind)) = k) = found)
    {f : Bool → Parse β} (h : Consumes depth (f found) w rest Q) :
    Consumes depth (Parse.atKind k >>= f) w rest Q := by
  intro s hs
  rw [run_atKind, hs.ready.currentKind_eq, hk]
  exact h s hs

lemma lastStop {f : Offset → Parse β} (h : ∀ offset, Consumes depth (f offset) w rest Q) :
    Consumes depth (Parse.lastStop >>= f) w rest Q := fun s hs => h _ s hs

lemma remaining {f : Nat → Parse β} (h : Consumes depth (f (w ++ rest).length) w rest Q) :
    Consumes depth (Parse.remaining >>= f) w rest Q := by
  intro s hs
  have hlength : s.cursor.ahead.length = (w ++ rest).length := by rw [← hs.ahead, List.length_map]
  rw [run_remaining, hlength]
  exact h s hs

/-! ### Consuming tokens -/

lemma advance (ht : t.kind ≠ .eof) {f : Token → Parse β}
    (h : ∀ a : Token, a.bare = t → Consumes depth (f a) w rest Q) :
    Consumes depth (Parse.advance >>= f) (t :: w) rest Q := by
  intro s hs
  obtain ⟨hcurrent, hs'⟩ := hs.advance ht
  exact h _ hcurrent _ hs'

lemma take (hk : t.kind = k) (heof : k ≠ .eof) {f : Option Token → Parse β}
    (h : ∀ a : Token, a.bare = t → Consumes depth (f (some a)) w rest Q) :
    Consumes depth (take? k >>= f) (t :: w) rest Q := by
  have hfront : TokenKind.front ((t :: w ++ rest).map (·.kind)) = k := hk
  exact atKind (f := fun b => (if b then some <$> Parse.advance else pure none) >>= f)
    (decide_eq_true hfront) (advance (hk ▸ heof) h)

lemma takeNone (hk : .front ((w ++ rest).map (·.kind)) ≠ k) {f : Option Token → Parse β}
    (h : Consumes depth (f none) w rest Q) : Consumes depth (take? k >>= f) w rest Q :=
  atKind (f := fun b => (if b then some <$> Parse.advance else pure none) >>= f)
    (decide_eq_false hk) h

lemma expect (hk : t.kind = k) (heof : k ≠ .eof) {f : Token → Parse β}
    (h : ∀ a : Token, a.bare = t → Consumes depth (f a) w rest Q) :
    Consumes depth (Parse.expect k >>= f) (t :: w) rest Q := by
  rw [Parse.expect, bind_assoc]
  exact take hk heof h

lemma expectClosing (hk : t.kind = k) (heof : k ≠ .eof) {opener : Token} {f : Token → Parse β}
    (h : ∀ a : Token, a.bare = t → Consumes depth (f a) w rest Q) :
    Consumes depth (Parse.expectClosing k opener >>= f) (t :: w) rest Q := by
  rw [Parse.expectClosing, bind_assoc]
  exact take hk heof h

/-! ### Levels -/

lemma nested {refused : List Token → Parse β} [hsteady : ∀ tokens, Steady (refused tokens)]
    {inner : Parse β} (h : Consumes (depth + 1) inner w rest Q) :
    Consumes depth (Parse.nested refused inner) w rest Q := by
  intro s hs hdeep
  by_cases hdepth : maxDepth ≤ s.depth
  · rw [run_nested_refused hs.ready.tooDeep hdepth, Steady.keeps (refused _) _ rfl] at hdeep
    exact absurd hdeep.symm Bool.false_ne_true
  · have hdepth := Nat.lt_of_not_le hdepth
    rw [run_nested_entered hs.ready.tooDeep hdepth] at hdeep ⊢
    have hinside : Ready (depth + 1) ((w ++ rest).map (·.kind)) { s with depth := s.depth + 1 } :=
      { hs.ready with depth_eq := congrArg (· + 1) hs.ready.depth_eq, limit := hdepth }
    obtain ⟨ha, hs'⟩ := h _ ⟨hinside, hs.ahead⟩ hdeep
    exact ⟨ha, hs'.leave⟩

end Consumes

end Parse

end LuaFront
