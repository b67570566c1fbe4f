import LuaFront.Proofs.Parser.Excerpt

/-!
Parsers that are followed in a part of a text and in the whole. Each rule carries over what is known
of the steps of a parser to the parser: run in both, it gives a result and the displaced one, and it
is found again at the same place, unless the nesting limit is met in the whole or the part is lost.
-/

namespace LuaFront

namespace Parse

open ParseState Excerpt

variable {α β : Type} {x : Excerpt} {depth : Nat} {pre : Cursor → Prop} {act : α → α}
  {act' : β → β}

/-- At the end of input the parser reports something. -/
def Wanting (p : Parse α) : Prop :=
  ∀ t : ParseState, t.cursor.current.kind = .eof → t.tooDeep = false → (p.run t).2.log.entries ≠ []

/-- Run in the whole and in the part, two parsers give a result and the displaced one, unless the
nesting limit is met in the whole, or the part is lost. -/
def Echoes (x : Excerpt) (depth : Nat) (pre : Cursor → Prop) (act : α → α) (p q : Parse α) :
    Prop :=
  ∀ s t, x.Echo depth s t → pre t.cursor →
    x.Gave (p.run s).2 ∨ x.Lost (q.run t).2
      ∨ (q.run t).1 = act (p.run s).1 ∧ x.Echo depth (p.run s).2 (q.run t).2

/-- The same up to a statement that comes after the part. -/
def Trails (x : Excerpt) (depth : Nat) (pre : Cursor → Prop) (act : α → α) (p q : Parse α) :
    Prop :=
  ∀ s t, x.Echo depth s t → pre t.cursor →
    x.Gave (p.run s).2 ∨ x.Lost (q.run t).2 ∨ x.Halted (q.run t).2
      ∨ (q.run t).1 = act (p.run s).1 ∧ x.Echo depth (p.run s).2 (q.run t).2

/-- Nothing is known of the tokens ahead. -/
def Anywhere (_ : Cursor) : Prop := True

/-- The current token of the part is of a kind. -/
def At (kind : TokenKind) (c : Cursor) : Prop := c.current.kind = kind

/-! ### What is missing at the end -/

lemma remaining_wanting {f : Nat → Parse α} (h : ∀ count, Wanting (f count)) :
    Wanting (remaining >>= f) := fun t => h t.cursor.ahead.length t

lemma errorExpected_wanting {what : String} {labels : List Label} {f : Unit → Parse α}
    [hf : ∀ a, Steady (f a)] : Wanting (errorExpected what labels >>= f) := by
  intro t _ hdeep
  exact run_errorExpected_ne_nil fun hgave => absurd (hdeep.symm.trans hgave) (by simp)

lemma take?_wanting {kind : TokenKind} (hkind : kind ≠ .eof) {f : Option Token → Parse α}
    (h : Wanting (f none)) : Wanting (take? kind >>= f) := by
  intro t ht hdeep
  rw [run_bind (run_take?_of_not_facing fun hother => hkind (hother.symm.trans ht))]
  exact h t ht hdeep

lemma expect_wanting {kind : TokenKind} (hkind : kind ≠ .eof) {f : Token → Parse α}
    [∀ t, Steady (f t)] : Wanting (expect kind >>= f) := by
  rw [expect, bind_assoc]
  exact take?_wanting hkind (errorExpected_wanting
    (f := fun _ => (do return Token.missing kind (← lastStop)) >>= f))

lemma expectClosing_wanting {kind : TokenKind} (hkind : kind ≠ .eof) {opener : Token}
    {f : Token → Parse α} [∀ t, Steady (f t)] : Wanting (expectClosing kind opener >>= f) := by
  rw [expectClosing, bind_assoc]
  exact take?_wanting hkind (errorExpected_wanting
    (f := fun _ => (do return Token.missing kind (← lastStop)) >>= f))

lemma Wanting.bind {p : Parse α} {f : α → Parse β} [hf : ∀ a, Steady (f a)] (h : Wanting p) :
    Wanting (p >>= f) := fun t ht hdeep => Steady.log_ne_nil (f (p.run t).1) (h t ht hdeep)

/-- What is missing is reported where the part has ended. -/
lemma Wanting.lost {p : Parse α} (h : Wanting p) [hp : Steady p] {t : ParseState}
    (ht : x.Halted t) : x.Lost (p.run t).2 := by
  refine .reported ?_
  cases hdeep : t.tooDeep with
  | false => exact h t ht.eof hdeep
  | true => exact Steady.log_ne_nil p (ht.valid.gaveUp hdeep).2

namespace Echoes

variable {p q : Parse α} {f g : α → Parse β}

lemma ret {a b : α} (h : b = act a) : Echoes x depth pre act (pure a) (pure b) :=
  fun _ _ hecho _ => .inr (.inr ⟨h, hecho⟩)

lemma anywhere (h : Echoes x depth Anywhere act p q) : Echoes x depth pre act p q :=
  fun s t hecho _ => h s t hecho trivial

lemma bind [hf : ∀ a, Steady (f a)] [hg : ∀ a, Steady (g a)] (hp : Echoes x depth pre act p q)
    (h : ∀ a, Echoes x depth Anywhere act' (f a) (g (act a))) :
    Echoes x depth pre act' (p >>= f) (q >>= g) := by
  intro s t hecho ht
  rcases hp s t hecho ht with hgave | hlost | ⟨ha, hecho⟩
  · exact .inl (hgave.onward ((hf (p.run s).1).onward (p.run s).2))
  · exact .inr (.inl (hlost.onward ((hg (q.run t).1).onward (q.run t).2)))
  · have hpair := h (p.run s).1 _ _ hecho trivial
    rw [← ha] at hpair
    exact hpair

/-- The rule for a step whose result is then told apart by cases. -/
lemma cases (hp : Echoes x depth pre act p q) (hf : ∀ a, Steady (f a)) (hg : ∀ a, Steady (g a))
    (h : ∀ a, Echoes x depth Anywhere act' (f a) (g (act a))) :
    Echoes x depth pre act' (p >>= f) (q >>= g) := bind hp h

lemma ite {c : Prop} [Decidable c] {p' q' : Parse α} (h : Echoes x depth pre act p q)
    (h' : Echoes x depth pre act p' q') :
    Echoes x depth pre act (if c then p else p') (if c then q else q') := by
  split
  · exact h
  · exact h'

/-! ### Errors -/

/-- Where something is reported in the part, nothing is asked of the whole. -/
lemma error {r : Parse β} {span : Span} {message : String} {labels : List Label}
    {g : Unit → Parse β} [hg : ∀ a, Steady (g a)] :
    Echoes x depth pre act' r (Parse.error span message labels >>= g) := by
  intro s t hecho _
  exact .inr (.inl (.reported (run_error_ne_nil fun hgave => (hecho.part.gaveUp hgave).2)))

lemma errorExpected {r : Parse β} {what : String} {labels : List Label} {g : Unit → Parse β}
    [hg : ∀ a, Steady (g a)] :
    Echoes x depth pre act' r (Parse.errorExpected what labels >>= g) := by
  intro s t hecho _
  exact .inr (.inl (.reported (run_errorExpected_ne_nil fun hgave => (hecho.part.gaveUp hgave).2)))

lemma errorIf {wrong : Bool} {span span' : Span} {message : String} [LooksBack message] :
    Echoes x depth pre id (Parse.errorIf wrong span message)
      (Parse.errorIf wrong span' message) := by
  cases wrong with
  | true => exact error (g := pure)
  | false => exact ret rfl

/-! ### Looking -/

lemma currentKind {f g : TokenKind → Parse α} (hsettled : TokenKind.Settled f)
    (h : ∀ kind, Echoes x depth (fun c => At kind c ∧ pre c) act (f kind) (g kind)) :
    Echoes x depth pre act (Parse.currentKind >>= f) (Parse.currentKind >>= g) := by
  intro s t hecho ht
  rw [run_currentKind (f := f), hsettled.alike hecho.alike]
  exact h _ s t hecho ⟨rfl, ht⟩

/-- The rule where the part has not ended. -/
lemma currentKind_inside {f g : TokenKind → Parse α}
    (hpre : ∀ c, pre c → c.current.kind ≠ .eof)
    (h : ∀ kind, Echoes x depth (fun c => At kind c ∧ pre c) act (f kind) (g kind)) :
    Echoes x depth pre act (Parse.currentKind >>= f) (Parse.currentKind >>= g) := by
  intro s t hecho ht
  rw [run_currentKind (f := f), hecho.kind_eq (hpre _ ht)]
  exact h _ s t hecho ⟨rfl, ht⟩

/-- The rule where something is missing if the part has ended. -/
lemma currentKind_wanting {f g : TokenKind → Parse α} [hg : Steady (g .eof)]
    (hblind : TokenKind.Blind f) (hend : Wanting (g .eof))
    (h : ∀ kind, Echoes x depth (fun c => At kind c ∧ pre c) act (f kind) (g kind)) :
    Echoes x depth pre act (Parse.currentKind >>= f) (Parse.currentKind >>= g) := by
  intro s t hecho ht
  rcases hecho.blind hblind with heq | hhalted
  · rw [run_currentKind (f := f), heq]
    exact h _ s t hecho ⟨rfl, ht⟩
  · rw [run_currentKind (f := g), hhalted.eof]
    exact .inr (.inl (hend.lost hhalted))

lemma nextKind {kind : TokenKind} (hkind : kind.looksAhead = true) {f g : TokenKind → Parse α}
    (hsettled : TokenKind.Settled f)
    (h : ∀ next, Echoes x depth (fun c => At kind c ∧ c.next.kind = next) act (f next) (g next)) :
    Echoes x depth (fun c => At kind c ∧ pre c) act (Parse.nextKind >>= f)
      (Parse.nextKind >>= g) := by
  intro s t hecho ht
  have hcurrent : t.cursor.current.kind = kind := ht.1
  rw [run_nextKind (f := f), hsettled.alike (hecho.alike_next (hcurrent ▸ hkind))]
  exact h _ s t hecho ⟨ht.1, rfl⟩

/-- The rule where something is missing if the part ends with the current token. -/
lemma nextKind_wanting {kind : TokenKind} (hkind : kind.looksAhead = true)
    {f g : TokenKind → Parse α} (hblind : TokenKind.Blind f)
    (hend : ∃ r, g .eof = Parse.advance >>= r ∧ ∀ t, Wanting (r t))
    (h : ∀ next, Echoes x depth (fun c => At kind c ∧ c.next.kind = next) act (f next) (g next)) :
    Echoes x depth (fun c => At kind c ∧ pre c) act (Parse.nextKind >>= f)
      (Parse.nextKind >>= g) := by
  intro s t hecho ht
  have hcurrent : t.cursor.current.kind = kind := ht.1
  rcases hblind.alike (hecho.alike_next (hcurrent ▸ hkind)) with heq | ⟨heof, -⟩
  · rw [run_nextKind (f := f), heq]
    exact h _ s t hecho ⟨ht.1, rfl⟩
  · have hne : t.cursor.current.kind ≠ .eof := by
      rw [hcurrent]
      rintro rfl
      cases hkind
    obtain ⟨rest, hahead⟩ := ahead_of_facing hecho.part rfl hne
    obtain ⟨r, hr, hwanting⟩ := hend
    rw [run_nextKind (f := g), heof, hr]
    refine .inr (.inl (.reported (hwanting t.cursor.current _ ?_ hecho.going)))
    change t.cursor.advance.current.kind = .eof
    rw [Cursor.advance_of_ahead hahead hne, ← heof, Cursor.next, hahead]
    rfl

lemma atKind {kind : TokenKind} (hkind : kind.follows = false) {f g : Bool → Parse α}
    (ht : Echoes x depth (fun c => At kind c ∧ pre c) act (f true) (g true))
    (hf : Echoes x depth pre act (f false) (g false)) :
    Echoes x depth pre act (Parse.atKind kind >>= f) (Parse.atKind kind >>= g) := by
  intro s t hecho hpre
  rw [run_atKind, run_atKind, hecho.alike.decide_eq hkind]
  by_cases hat : t.cursor.current.kind = kind
  · rw [decide_eq_true hat]
    exact ht s t hecho ⟨hat, hpre⟩
  · rw [decide_eq_false hat]
    exact hf s t hecho hpre

/-- The rule where something is missing if the part has ended. -/
lemma atKind_wanting {kind : TokenKind} (hkind : kind.endsBlock = false) {f g : Bool → Parse α}
    [hg : Steady (g false)] (hend : Wanting (g false))
    (ht : Echoes x depth (fun c => At kind c ∧ pre c) act (f true) (g true))
    (hf : Echoes x depth pre act (f false) (g false)) :
    Echoes x depth pre act (Parse.atKind kind >>= f) (Parse.atKind kind >>= g) := by
  intro s t hecho hpre
  have hblind : TokenKind.Blind fun other => decide (other = kind) := by
    constructor <;> rw [decide_eq_false, decide_eq_false] <;> rintro rfl <;> cases hkind
  rw [run_atKind, run_atKind]
  rcases hecho.blind hblind with heq | hhalted
  · rw [heq]
    by_cases hat : t.cursor.current.kind = kind
    · rw [decide_eq_true hat]
      exact ht s t hecho ⟨hat, hpre⟩
    · rw [decide_eq_false hat]
      exact hf s t hecho hpre
  · have hat : t.cursor.current.kind ≠ kind := by
      rw [hhalted.eof]
      rintro rfl
      cases hkind
    rw [decide_eq_false hat]
    exact .inr (.inl (hend.lost hhalted))

lemma lastStop {f g : Offset → Parse α}
    (h : ∀ offset, Echoes x depth pre act (f offset) (g (x.move.offset offset))) :
    Echoes x depth pre act (Parse.lastStop >>= f) (Parse.lastStop >>= g) := by
  intro s t hecho ht
  rw [run_lastStop (f := g), hecho.lastStop]
  exact h _ s t hecho ht

lemma remaining {f g : Nat → Parse α} (hf : Ample (depth + x.gap) f) (hg : Ample depth g)
    (h : ∀ count, Echoes x depth pre act (f count) (g count)) :
    Echoes x depth pre act (Parse.remaining >>= f) (Parse.remaining >>= g) := by
  intro s t hecho ht
  obtain ⟨count, hs, ht'⟩ := hecho.run_remaining hf hg
  rw [hs, ht']
  exact h count s t hecho ht

/-! ### Consuming tokens -/

/-- A token is consumed, which may be the first one after the part. -/
lemma run_advance {kind : TokenKind} (hkind : kind ≠ .eof) {s t : ParseState}
    (hecho : x.Echo depth s t) (ht : At kind t.cursor) :
    x.Lost (Parse.advance.run t).2
      ∨ (Parse.advance.run t).1 = x.move.token (Parse.advance.run s).1
        ∧ x.Echo depth (Parse.advance.run s).2 (Parse.advance.run t).2 := by
  have hcurrent : t.cursor.current.kind ≠ .eof := ht.symm ▸ hkind
  rw [Parse.run_advance, Parse.run_advance]
  rcases hecho.exists_current hcurrent with ⟨a, front, hs', ht'⟩ | ⟨a, close, -, hclose, ht'⟩
  · have hkind' : (x.move.token a).kind ≠ .eof := by simpa [Cursor.current, ht'] using hcurrent
    have hadvance_s := Cursor.advance_of_ahead hs' hkind'
    have hadvance_t := Cursor.advance_of_ahead ht' hkind'
    refine .inr ⟨by simp [Cursor.current, hs', ht'], { hecho with
      whole := (advance_steady.onward s).valid hecho.whole
      part := (advance_steady.onward t).valid hecho.part
      ahead := ⟨front, by simp [hadvance_s], by simp [hadvance_t]⟩
      lastStop := by simp only [hadvance_s, hadvance_t]; rfl }⟩
  · have hkind' : a.kind ≠ .eof := by simpa [Cursor.current, ht'] using hcurrent
    have hadvance := Cursor.advance_of_ahead ht' hkind'
    exact .inl (.passed (by simp [hadvance, hclose]))

lemma advance {kind : TokenKind} (hkind : kind ≠ .eof) {f g : Token → Parse α}
    [hg : ∀ t, Steady (g t)]
    (h : ∀ t, Echoes x depth Anywhere act (f t) (g (x.move.token t))) :
    Echoes x depth (fun c => At kind c ∧ pre c) act (Parse.advance >>= f)
      (Parse.advance >>= g) := by
  intro s t hecho ht
  rcases run_advance hkind hecho ht.1 with hlost | ⟨htoken, hecho'⟩
  · exact .inr (.inl (hlost.onward ((hg (Parse.advance.run t).1).onward (Parse.advance.run t).2)))
  · have hpair := h (Parse.advance.run s).1 _ _ hecho' trivial
    rw [← htoken] at hpair
    exact hpair

/-- The rule for a token after which the parser goes on by cases. -/
lemma advance_cases {kind : TokenKind} (hkind : kind ≠ .eof) {f g : Token → Parse α}
    (hg : ∀ t, Steady (g t))
    (h : ∀ t, Echoes x depth Anywhere act (f t) (g (x.move.token t))) :
    Echoes x depth (fun c => At kind c ∧ pre c) act (Parse.advance >>= f)
      (Parse.advance >>= g) := advance hkind h

/-- The next token is the current one after the current one is consumed. -/
lemma advance_next {kind next : TokenKind} (hkind : kind ≠ .eof) {f g : Token → Parse α}
    [hg : ∀ t, Steady (g t)]
    (h : ∀ t, Echoes x depth (fun c => At next c ∧ Anywhere c) act (f t) (g (x.move.token t))) :
    Echoes x depth (fun c => At kind c ∧ c.next.kind = next) act
      (Parse.advance >>= f) (Parse.advance >>= g) := by
  intro s t hecho ht
  rcases run_advance hkind hecho ht.1 with hlost | ⟨htoken, hecho'⟩
  · exact .inr (.inl (hlost.onward ((hg (Parse.advance.run t).1).onward (Parse.advance.run t).2)))
  · have hat : t.cursor.current.kind ≠ .eof := ht.1.symm ▸ hkind
    obtain ⟨rest, hahead⟩ := ahead_of_facing hecho.part rfl hat
    have hnext : (Parse.advance.run t).2.cursor.current = t.cursor.next := by
      change t.cursor.advance.current = t.cursor.next
      rw [Cursor.advance_of_ahead hahead hat, Cursor.next, hahead]
      rfl
    have hpair := h (Parse.advance.run s).1 _ _ hecho'
      ⟨(congrArg Token.kind hnext).trans ht.2, trivial⟩
    rw [← htoken] at hpair
    exact hpair

lemma run_take?_eq {kind : TokenKind} {f : Option Token → Parse α} :
    (Parse.take? kind >>= f)
      = (Parse.atKind kind >>= fun b =>
        if b then Parse.advance >>= fun t => f (some t) else f none) := by
  rw [Parse.take?, bind_assoc]
  refine bind_congr fun b => ?_
  cases b <;> rfl

lemma take? {kind : TokenKind} (hkind : kind.follows = false) {f g : Option Token → Parse α}
    [hg : ∀ t, Steady (g (some t))]
    (hsome : ∀ t, Echoes x depth Anywhere act (f (some t)) (g (some (x.move.token t))))
    (hnone : Echoes x depth Anywhere act (f none) (g none)) :
    Echoes x depth Anywhere act (Parse.take? kind >>= f) (Parse.take? kind >>= g) := by
  have heof : kind ≠ .eof := by rintro rfl; cases hkind
  rw [run_take?_eq, run_take?_eq]
  exact atKind hkind (advance heof hsome) hnone

/-- The token is there, or it is missing in the part. -/
lemma takeOr {kind : TokenKind} (hkind : kind ≠ .eof) {f g : Option Token → Parse α}
    [hg : ∀ t, Steady (g (some t))]
    (hsome : ∀ t, Echoes x depth Anywhere act (f (some t)) (g (some (x.move.token t))))
    (hnone : Echoes x depth (fun c => c.current.kind ≠ kind) act
      (Parse.take? kind >>= f) (g none)) :
    Echoes x depth Anywhere act (Parse.take? kind >>= f) (Parse.take? kind >>= g) := by
  intro s t hecho _
  by_cases hat : t.cursor.current.kind = kind
  · have halike : s.cursor.current.kind = kind := (hecho.kind_eq (hat.symm ▸ hkind)).trans hat
    rw [run_bind (run_take?_of_facing halike), run_bind (run_take?_of_facing hat)]
    rcases run_advance hkind hecho hat with hlost | ⟨htoken, hecho'⟩
    · exact .inr (.inl (hlost.onward ((hg t.cursor.current).onward _)))
    · have htoken : t.cursor.current = x.move.token s.cursor.current := htoken
      rw [htoken]
      exact hsome s.cursor.current _ _ hecho' trivial
  · rw [run_bind (run_take?_of_not_facing hat)]
    exact hnone s t hecho hat

lemma expect {kind : TokenKind} (hkind : kind ≠ .eof) :
    Echoes x depth Anywhere x.move.token (Parse.expect kind) (Parse.expect kind) :=
  takeOr hkind (fun _ => .ret rfl) errorExpected

lemma expectClosing {kind : TokenKind} {opener opener' : Token} (hkind : kind ≠ .eof) :
    Echoes x depth Anywhere x.move.token (Parse.expectClosing kind opener)
      (Parse.expectClosing kind opener') :=
  takeOr hkind (fun _ => .ret rfl) errorExpected

/-! ### Levels -/

lemma nested {refused refused' : List Token → Parse α} {inner inner' : Parse α}
    [hsteady : ∀ tokens, Steady (refused tokens)] [hsteady' : ∀ tokens, Steady (refused' tokens)]
    (hinner : Echoes x (depth + 1) pre act inner inner') :
    Echoes x depth pre act (Parse.nested refused inner) (Parse.nested refused' inner') := by
  intro s t hecho ht
  rcases hecho.run_nested refused refused' inner inner' with hgave | hlost | ⟨hs, hs', hentered⟩
  · exact .inl hgave
  · exact .inr (.inl hlost)
  · rw [hs, hs']
    rcases hinner _ _ hentered ht with hgave | hlost | ⟨ha, hecho'⟩
    · exact .inl hgave.leave
    · exact .inr (.inl hlost.leave)
    · exact .inr (.inr ⟨ha, hecho'.leave⟩)

end Echoes

/-! ### Up to the end of the part -/

namespace Trails

variable {p q : Parse α} {f g : α → Parse β}

lemma of_echoes (h : Echoes x depth pre act p q) : Trails x depth pre act p q :=
  fun s t hecho ht => (h s t hecho ht).imp_right (·.imp_right .inr)

/-- Where no statement comes after the part, the parser does not end before one. -/
lemma echoes (h : Trails x depth pre act p q)
    (hrest : (Token.frontKind x.rest).beginsStat = false) : Echoes x depth pre act p q := by
  intro s t hecho ht
  rcases h s t hecho ht with hgave | hlost | hhalted | hgood
  · exact .inl hgave
  · exact .inr (.inl hlost)
  · exact absurd hhalted.begins (by simp [hrest])
  · exact .inr (.inr hgood)

lemma bind [hf : ∀ a, Steady (f a)] [hg : ∀ a, Steady (g a)] (hp : Trails x depth pre act p q)
    (h : ∀ a, Trails x depth Anywhere act' (f a) (g (act a))) :
    Trails x depth pre act' (p >>= f) (q >>= g) := by
  intro s t hecho ht
  rcases hp s t hecho ht with hgave | hlost | hhalted | ⟨ha, hecho⟩
  · exact .inl (hgave.onward ((hf (p.run s).1).onward (p.run s).2))
  · exact .inr (.inl (hlost.onward ((hg (q.run t).1).onward (q.run t).2)))
  · exact .inr (.inr (.inl (hhalted.walk ((hg (q.run t).1).walk (q.run t).2))))
  · have hpair := h (p.run s).1 _ _ hecho trivial
    rw [← ha] at hpair
    exact hpair

/-- The rule for a step whose result is then told apart by cases. -/
lemma cases (hp : Trails x depth pre act p q) (hf : ∀ a, Steady (f a)) (hg : ∀ a, Steady (g a))
    (h : ∀ a, Trails x depth Anywhere act' (f a) (g (act a))) :
    Trails x depth pre act' (p >>= f) (q >>= g) := bind hp h

/-- What must come next is missing where the part has ended. -/
lemma bind_wanting [hf : ∀ a, Steady (f a)] [hg : ∀ a, Steady (g a)]
    (hp : Trails x depth pre act p q) (hend : ∀ a, Wanting (g a))
    (h : ∀ a, Echoes x depth Anywhere act' (f a) (g (act a))) :
    Echoes x depth pre act' (p >>= f) (q >>= g) := by
  intro s t hecho ht
  rcases hp s t hecho ht with hgave | hlost | hhalted | ⟨ha, hecho⟩
  · exact .inl (hgave.onward ((hf (p.run s).1).onward (p.run s).2))
  · exact .inr (.inl (hlost.onward ((hg (q.run t).1).onward (q.run t).2)))
  · exact .inr (.inl ((hend (q.run t).1).lost hhalted))
  · have hpair := h (p.run s).1 _ _ hecho trivial
    rw [← ha] at hpair
    exact hpair

lemma bind_closing {kind : TokenKind} (hkind : kind ≠ .eof) {opener opener' : Token}
    {f g : α → Token → Parse β} [hf : ∀ a t, Steady (f a t)] [hg : ∀ a t, Steady (g a t)]
    (hp : Trails x depth pre act p q)
    (h : ∀ a t, Echoes x depth Anywhere act' (f a t) (g (act a) (x.move.token t))) :
    Echoes x depth pre act' (p >>= fun a => Parse.expectClosing kind opener >>= f a)
      (q >>= fun a => Parse.expectClosing kind opener' >>= g a) :=
  hp.bind_wanting (fun _ => expectClosing_wanting hkind) fun a =>
    (Echoes.expectClosing hkind).bind (h a)

lemma ite {c : Prop} [Decidable c] {p' q' : Parse α} (h : Trails x depth pre act p q)
    (h' : Trails x depth pre act p' q') :
    Trails x depth pre act (if c then p else p') (if c then q else q') := by
  split
  · exact h
  · exact h'

lemma currentKind {f g : TokenKind → Parse α} (hblind : TokenKind.Blind f) (hg : Steady (g .eof))
    (h : ∀ kind, Trails x depth (fun c => At kind c ∧ pre c) act (f kind) (g kind)) :
    Trails x depth pre act (Parse.currentKind >>= f) (Parse.currentKind >>= g) := by
  intro s t hecho ht
  rcases hecho.blind hblind with heq | hhalted
  · rw [run_currentKind (f := f), heq]
    exact h _ s t hecho ⟨rfl, ht⟩
  · rw [run_currentKind (f := g), hhalted.eof]
    exact .inr (.inr (.inl (hhalted.walk (hg.walk t))))

lemma advance {kind : TokenKind} (hkind : kind ≠ .eof) {f g : Token → Parse α}
    [hg : ∀ t, Steady (g t)]
    (h : ∀ t, Trails x depth Anywhere act (f t) (g (x.move.token t))) :
    Trails x depth (fun c => At kind c ∧ pre c) act (Parse.advance >>= f)
      (Parse.advance >>= g) := by
  intro s t hecho ht
  rcases Echoes.run_advance hkind hecho ht.1 with hlost | ⟨htoken, hecho'⟩
  · exact .inr (.inl (hlost.onward ((hg (Parse.advance.run t).1).onward (Parse.advance.run t).2)))
  · have hpair := h (Parse.advance.run s).1 _ _ hecho' trivial
    rw [← htoken] at hpair
    exact hpair

lemma lastStop {f g : Offset → Parse α}
    (h : ∀ offset, Trails x depth pre act (f offset) (g (x.move.offset offset))) :
    Trails x depth pre act (Parse.lastStop >>= f) (Parse.lastStop >>= g) := by
  intro s t hecho ht
  rw [run_lastStop (f := g), hecho.lastStop]
  exact h _ s t hecho ht

lemma remaining {f g : Nat → Parse α} (hf : Ample (depth + x.gap) f) (hg : Ample depth g)
    (h : ∀ count, Trails x depth pre act (f count) (g count)) :
    Trails x depth pre act (Parse.remaining >>= f) (Parse.remaining >>= g) := by
  intro s t hecho ht
  obtain ⟨count, hs, ht'⟩ := hecho.run_remaining hf hg
  rw [hs, ht']
  exact h count s t hecho ht

lemma nested {refused refused' : List Token → Parse α} {inner inner' : Parse α}
    [hsteady : ∀ tokens, Steady (refused tokens)] [hsteady' : ∀ tokens, Steady (refused' tokens)]
    (hinner : Trails x (depth + 1) pre act inner inner') :
    Trails x depth pre act (Parse.nested refused inner) (Parse.nested refused' inner') := by
  intro s t hecho ht
  rcases hecho.run_nested refused refused' inner inner' with hgave | hlost | ⟨hs, hs', hentered⟩
  · exact .inl hgave
  · exact .inr (.inl hlost)
  · rw [hs, hs']
    rcases hinner _ _ hentered ht with hgave | hlost | hhalted | ⟨ha, hecho'⟩
    · exact .inl hgave.leave
    · exact .inr (.inl hlost.leave)
    · exact .inr (.inr (.inl hhalted.leave))
    · exact .inr (.inr (.inr ⟨ha, hecho'.leave⟩))

end Trails

end Parse

end LuaFront
