import LuaFront.Proofs.Parser.Echoes
import LuaFront.Proofs.Parser.Ended
import LuaFront.Proofs.Parser.Quiet

/-!
Blocks behind a gate. A statement is read without a report and its last block is empty; the last
token in front of that block is the gate. The part ends with the gate and what closes the statement;
in the whole the gate is followed by something else, which is read as the block. The rules carry a
run over from the part to the whole up to the gate, and behind the block to the end.
-/

namespace LuaFront

namespace Grammar

open Parse ParseState Excerpt

variable {α β : Type} {x : Excerpt} {depth k : Nat} {s t u v : ParseState}
  {pre : Cursor → Prop} {act : α → α} {kind : TokenKind}
  {post : Block → α → Offset → Prop} {post' : Block → β → Offset → Prop}

/-! ### Behind the gate -/

/-- The gate was the last token read in the whole, and `k` levels are left. -/
structure Behind (x : Excerpt) (k : Nat) (s : ParseState) : Prop where
  valid : s.Valid
  depth : s.depth + k = maxDepth + 1
  tooDeep : s.tooDeep = false
  log : s.log = x.log
  ahead : s.cursor.ahead = x.rest.tail
  lastStop : ∀ gate ∈ x.rest.head?, s.cursor.lastStop = gate.span.stop

/-- A run that reads a block behind the gate. If the block goes on up to the end of input, the
block, the result, and the end of the last token are such. -/
def Opens (x : Excerpt) (post : Block → α → Offset → Prop) (r : α × ParseState) : Prop :=
  ∃ k s, Behind x k s ∧ (((level k).blockHere.run s).2.Ended →
    ((level k).blockHere.run s).2.Idle r.2
      ∧ post ((level k).blockHere.run s).1 r.1 r.2.cursor.lastStop)

/-- The same, unless the nesting limit is met before the block. -/
def Meets (x : Excerpt) (post : Block → α → Offset → Prop) (r : α × ParseState) : Prop :=
  x.Gave r.2 ∨ Opens x post r

/-- In the whole, as in the part, the gate is next. -/
lemma pass (hecho : x.Echo depth s t) (hlength : t.cursor.ahead.length = x.close.length)
    (hat : t.cursor.current.kind = kind) (hkind : kind ≠ .eof)
    (hk : depth + x.gap + k = maxDepth + 1) :
    s.cursor.current.kind = kind ∧ s.cursor.current ∈ x.rest.head?
      ∧ Behind x k { s with cursor := s.cursor.advance } := by
  have hfacing := (hecho.kind_eq (hat.symm ▸ hkind)).trans hat
  obtain ⟨front, hs, ht⟩ := hecho.ahead
  obtain rfl : front = [] := by
    rw [ht, List.length_append, List.length_map] at hlength
    exact List.length_eq_zero_iff.1 (by omega)
  obtain ⟨rest, hahead⟩ := ahead_of_facing hecho.whole hfacing hkind
  have hrest : x.rest = s.cursor.current :: rest := hs.symm.trans hahead
  have hadvance := Cursor.advance_of_ahead hahead (hfacing.symm ▸ hkind)
  refine ⟨hfacing, by simp [hrest], (advance_steady.onward s).valid hecho.whole, ?_,
    hecho.tooDeep, hecho.log_whole, ?_, ?_⟩
  · have hdepth := hecho.depth_whole
    change s.depth + k = maxDepth + 1
    omega
  · rw [hadvance, hrest]
    rfl
  · rw [hadvance, hrest]
    rintro gate ⟨⟩
    rfl

namespace Meets

lemma here (h : Behind x k s) : Meets x (fun b a _ => a = b) ((level k).blockHere.run s) :=
  .inr ⟨k, s, h, fun hended => ⟨hended.refl, rfl⟩⟩

/-- At the end of input the run may go on, as long as it takes no report back. -/
lemma onto {r : α × ParseState} {r' : β × ParseState} (h : Meets x post r)
    (hgave : x.Gave r.2 → x.Gave r'.2)
    (hended : r.2.Ended → r.2.Idle r'.2 ∧ ∀ b, post b r.1 r.2.cursor.lastStop →
      post' b r'.1 r.2.cursor.lastStop) : Meets x post' r' := by
  rcases h with h | ⟨k, s, hbehind, hr⟩
  · exact .inl (hgave h)
  · refine .inr ⟨k, s, hbehind, fun hinner => ?_⟩
    obtain ⟨hidle, hpost⟩ := hr hinner
    obtain ⟨hidle', hpost'⟩ := hended hidle.ended
    exact ⟨hidle.trans hidle', hidle'.cursor ▸ hpost' _ hpost⟩

lemma bind {p : Parse α} {f : α → Parse β} [hf : ∀ a, Steady (f a)] (h : Meets x post (p.run s))
    (hpost : ∀ b a s', s'.Ended → post b a s'.cursor.lastStop →
      post' b ((f a).run s').1 s'.cursor.lastStop) : Meets x post' ((p >>= f).run s) :=
  have honward : (p.run s).2.Onward ((p >>= f).run s).2 := (hf (p.run s).1).onward (p.run s).2
  h.onto (fun hgave => hgave.onward honward) fun hended =>
      ⟨hended.run (f (p.run s).1), fun b => hpost b (p.run s).1 (p.run s).2 hended⟩

/-- The rule for a run whose result is then told apart by cases. -/
lemma bind_cases {p : Parse α} {f : α → Parse β} (hf : ∀ a, Steady (f a))
    (h : Meets x post (p.run s)) (hpost : ∀ b a s', s'.Ended → post b a s'.cursor.lastStop →
      post' b ((f a).run s').1 s'.cursor.lastStop) : Meets x post' ((p >>= f).run s) :=
  bind h hpost

/-- The rule for what is in front of the gate. -/
lemma step {p q : Parse α} {f : α → Parse β} [hf : ∀ a, Steady (f a)] {a : α}
    (hp : Echoes x depth pre act p q) (hecho : x.Echo depth s t) (hpre : pre t.cursor)
    (hq : Quiet q t a v) (hlength : x.close.length ≤ v.cursor.ahead.length)
    (h : ∀ a' s', a = act a' → x.Echo depth s' v → Meets x post' ((f a').run s')) :
    Meets x post' ((p >>= f).run s) := by
  have hpair := hp s t hecho hpre
  rw [hq.run] at hpair
  rcases hpair with hgave | hlost | ⟨ha, hecho'⟩
  · exact .inl (hgave.onward ((hf (p.run s).1).onward (p.run s).2))
  · rcases hlost with hreported | hpassed
    · exact absurd hq.log hreported
    · exact absurd hlength (Nat.not_le.2 hpassed)
  · exact h _ _ ha hecho'

/-- The rule for a step whose result is then told apart by cases. -/
lemma cases {p q : Parse α} {f : α → Parse β} (hf : ∀ a, Steady (f a)) {a : α}
    (hp : Echoes x depth pre act p q) (hecho : x.Echo depth s t) (hpre : pre t.cursor)
    (hq : Quiet q t a v) (hlength : x.close.length ≤ v.cursor.ahead.length)
    (h : ∀ a' s', a = act a' → x.Echo depth s' v → Meets x post' ((f a').run s')) :
    Meets x post' ((p >>= f).run s) := step hp hecho hpre hq hlength h

/-- The rule for a block in front of the gate. -/
lemma trail {p q : Parse α} {f : α → Parse β} [hf : ∀ a, Steady (f a)] {a : α}
    (hp : Trails x depth pre act p q) (hecho : x.Echo depth s t) (hpre : pre t.cursor)
    (hq : Quiet q t a v) (hlength : x.close.length ≤ v.cursor.ahead.length)
    (hv : v.cursor.current.kind ≠ .eof)
    (h : ∀ a' s', a = act a' → x.Echo depth s' v → Meets x post' ((f a').run s')) :
    Meets x post' ((p >>= f).run s) := by
  have hpair := hp s t hecho hpre
  rw [hq.run] at hpair
  rcases hpair with hgave | hlost | hhalted | ⟨ha, hecho'⟩
  · exact .inl (hgave.onward ((hf (p.run s).1).onward (p.run s).2))
  · rcases hlost with hreported | hpassed
    · exact absurd hq.log hreported
    · exact absurd hlength (Nat.not_le.2 hpassed)
  · exact absurd hhalted.eof hv
  · exact h _ _ ha hecho'

/-- The rule for a level that is entered in front of the gate. -/
lemma nested {refused : List Token → Parse α} {inner : Parse α}
    [hsteady : ∀ tokens, Steady (refused tokens)] (hecho : x.Echo depth s t)
    (ht : t.depth < maxDepth)
    (h : x.Echo (depth + 1) { s with depth := s.depth + 1 } { t with depth := t.depth + 1 } →
      Meets x post (inner.run { s with depth := s.depth + 1 })) :
    Meets x post ((Parse.nested refused inner).run s) := by
  by_cases hs : maxDepth ≤ s.depth
  · have hgap : 0 < x.gap := by
      have := hecho.depth_whole
      have := hecho.depth_part
      omega
    rw [run_nested_refused hecho.tooDeep hs]
    exact .inl ((hecho.refused (x.deeper hgap)).onward ((hsteady _).onward _))
  · have hs := Nat.lt_of_not_le hs
    rw [run_nested_entered hecho.tooDeep hs]
    exact (h (hecho.enter hs ht)).onto Gave.leave fun hended => ⟨hended.leave, fun _ => id⟩

end Meets

/-! ### Tokens of the whole -/

lemma advance_echoes (hkind : kind ≠ .eof) :
    Parse.Echoes x depth (At kind) x.move.token advance advance := fun _ _ hecho ht =>
  .inr (Echoes.run_advance hkind hecho ht)

lemma run_take?_bind {f : Option Token → Parse α} (h : s.cursor.current.kind = kind) :
    (take? kind >>= f).run s = (advance >>= fun t => f (some t)).run s :=
  run_bind (run_take?_of_facing h)

end Grammar

end LuaFront
