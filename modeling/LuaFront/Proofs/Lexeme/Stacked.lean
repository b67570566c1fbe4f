import LuaFront.Proofs.Lexeme.Shifted

/-!
Texts on lines of their own. A text below another one has the tokens that it has by itself, further
on and with something else in front of them. Where one of the two is empty there need not be a line
feed between them.
-/

namespace LuaFront

/-! ### Tokens without what is in front of them -/

namespace Displacement

variable {distance : Nat}

/-- Moves a text that begins at a distance to the start, and keeps nothing of what is in front of
its tokens. -/
def plain (distance : Nat) : Displacement where
  offset := (· - distance)
  trivia _ := []
  monotone _ _ h := Nat.sub_le_sub_right h distance
  zero := Nat.zero_sub distance
  none := still.none

lemma plain_strictMono : StrictMono (plain 0).offset := strictMono_id

lemma plain_plain (first second : Nat) (t : Token) :
    (plain second).token ((plain first).token t) = (plain (first + second)).token t := by
  simp [token, span, plain, Nat.sub_sub]

lemma plain_behind (t : Token) (trivia : List Trivia) :
    (plain distance).token (t.behind trivia) = (plain distance).token t := rfl

lemma plain_shift (t : Token) :
    (plain distance).token (t.shift distance) = (plain 0).token t := by
  simp [token, span, plain, Token.shift, Span.shift]

end Displacement

namespace Token

open Displacement

variable {distance first second : Nat} {tokens further later front back : List Token}

/-- The tokens of a text that begins further on, whatever is in front of them. -/
structure Further (distance : Nat) (tokens further : List Token) : Prop where
  plain : further.map (plain distance).token = tokens.map (Displacement.plain 0).token
  span : ∀ t ∈ further, ((Displacement.plain distance).span t.span).shift distance = t.span

namespace Further

lemma refl (tokens : List Token) : Further 0 tokens tokens := ⟨rfl, fun _ _ => rfl⟩

/-- Of what is in front of the first token, nothing matters. -/
lemma shifted (tokens : List Token) (trivia : List Trivia) :
    Further distance tokens ((tokens.map (·.shift distance)).modifyHead (·.behind trivia)) := by
  have hspan : ∀ t : Token, ((Displacement.plain distance).span (t.shift distance).span).shift
      distance = (t.shift distance).span := fun t => by
    simp [Displacement.span, Displacement.plain, Token.shift, Span.shift]
  cases tokens with
  | nil => exact ⟨rfl, by simp⟩
  | cons t tokens =>
    refine ⟨by simp [plain_behind, plain_shift, Function.comp_def], ?_⟩
    simp only [List.map_cons, List.modifyHead_cons, List.mem_cons, List.mem_map]
    rintro _ (rfl | ⟨u, -, rfl⟩)
    · exact hspan t
    · exact hspan u

lemma trans (h : Further first tokens further) (h' : Further second further later) :
    Further (second + first) tokens later := by
  have hplain : later.map (Displacement.plain (second + first)).token
      = (later.map (Displacement.plain second).token).map (Displacement.plain first).token := by
    simp [plain_plain, Function.comp_def]
  refine ⟨?_, fun t ht => ?_⟩
  · rw [hplain, h'.plain, ← h.plain]
    simp [plain_plain, Function.comp_def]
  · have hmem : (Displacement.plain second).token t
        ∈ further.map (Displacement.plain 0).token := h'.plain ▸ List.mem_map_of_mem ht
    obtain ⟨u, hu, heq⟩ := List.mem_map.1 hmem
    have hspan : u.span = (Displacement.plain second).span t.span := congrArg Token.span heq
    have hback := h.span u hu
    have hfurther := h'.span t ht
    rw [hspan] at hback
    simp only [Displacement.span, Displacement.plain, Span.shift] at hback hfurther ⊢
    rw [← Nat.sub_sub, ← Nat.sub_sub, Nat.add_comm second, ← Nat.add_assoc, ← Nat.add_assoc]
    rw [(Span.mk.inj hback).1, (Span.mk.inj hback).2]
    exact hfurther

lemma span_of_le (h : Further second tokens further) (hle : first ≤ second) :
    ∀ t ∈ further, ((Displacement.plain first).span t.span).shift first = t.span := by
  intro t ht
  have hspan := h.span t ht
  simp only [Displacement.span, Displacement.plain, Span.shift] at hspan ⊢
  have hstart : second ≤ t.span.start := (Span.mk.inj hspan).1 ▸ Nat.le_add_left _ _
  have hstop : second ≤ t.span.stop := (Span.mk.inj hspan).2 ▸ Nat.le_add_left _ _
  rw [Nat.sub_add_cancel (Nat.le_trans hle hstart), Nat.sub_add_cancel (Nat.le_trans hle hstop)]

lemma split (h : Further distance (front ++ back) further) :
    ∃ front' back', further = front' ++ back' ∧ Further distance front front'
      ∧ Further distance back back' := by
  have hplain := h.plain
  rw [List.map_append] at hplain
  obtain ⟨front', back', rfl, hfront, hback⟩ := List.map_eq_append_iff.1 hplain
  exact ⟨front', back', rfl,
    ⟨hfront, fun t ht => h.span t (List.mem_append_left _ ht)⟩,
    ⟨hback, fun t ht => h.span t (List.mem_append_right _ ht)⟩⟩

lemma dropLast (h : Further distance tokens further) :
    Further distance tokens.dropLast further.dropLast :=
  ⟨by rw [List.map_dropLast, List.map_dropLast, h.plain],
    fun t ht => h.span t (List.dropLast_subset _ ht)⟩

lemma exists_eq (h : Further distance tokens further) {t : Token} (ht : t ∈ further) :
    ∃ u ∈ tokens, t.kind = u.kind ∧ t.text = u.text ∧ t.span = u.span.shift distance := by
  have hmem : (Displacement.plain distance).token t
      ∈ tokens.map (Displacement.plain 0).token := h.plain ▸ List.mem_map_of_mem ht
  obtain ⟨u, hu, heq⟩ := List.mem_map.1 hmem
  refine ⟨u, hu, (congrArg Token.kind heq).symm, (congrArg Token.text heq).symm, ?_⟩
  rw [← h.span t ht]
  exact congrArg (Span.shift · distance) (congrArg Token.span heq).symm

end Further

end Token

/-! ### Texts below each other -/

/-- A text below another one, how far down it begins, and both together. -/
inductive Text.Stacked (upper lower : String) : Nat → String → Prop
  | line : Stacked upper lower (byteSize (upper ++ "\n").toList) (upper ++ "\n" ++ lower)
  | above (h : upper = "") : Stacked upper lower 0 lower
  | below (h : lower = "") : Stacked upper lower (byteSize upper.toList) upper

namespace Text.Stacked

variable {upper lower text : String} {distance : Nat}

lemma size_le (h : Stacked upper lower distance text) : byteSize upper.toList ≤ distance := by
  cases h with
  | line =>
    rw [String.toList_append, byteSize_append]
    exact Nat.le_add_right _ _
  | above h => rw [h]; exact Nat.le_refl _
  | below => exact Nat.le_refl _

lemma size_eq (h : Stacked upper lower distance text) :
    byteSize text.toList = distance + byteSize lower.toList := by
  cases h with
  | line => rw [String.toList_append, byteSize_append]
  | above => exact (Nat.zero_add _).symm
  | below h => rw [h]; rfl

lemma lexed (h : Stacked upper lower distance text)
    (hupper : (Lexed.ofSource upper).diagnostics = [])
    (hlower : (Lexed.ofSource lower).diagnostics = []) :
    (Lexed.ofSource text).diagnostics = [] := by
  cases h with
  | line =>
    obtain ⟨_, -, -, hreports⟩ := Lexed.tokens_joined lower hupper
    rw [hreports, hlower]
    rfl
  | above => exact hlower
  | below => exact hupper

/-- **The tokens of both texts** are those of the upper one and, further on, those of the lower
one. -/
theorem tokens_eq (h : Stacked upper lower distance text)
    (hupper : (Lexed.ofSource upper).diagnostics = []) :
    ∃ back, (Lexed.ofSource text).tokens.dropLast = (Lexed.ofSource upper).tokens.dropLast ++ back
      ∧ Token.Further distance (Lexed.ofSource lower).tokens.dropLast back := by
  have hempty : (Lexed.ofSource "").tokens.dropLast = [] := by decide +kernel
  cases h with
  | line =>
    obtain ⟨trivia, htokens, -, -⟩ := Lexed.tokens_joined lower hupper
    have hfurther : Token.Further (byteSize (upper ++ "\n").toList) (Lexed.ofSource lower).tokens
      _ := .shifted _ trivia
    have hne : ((Lexed.ofSource lower).tokens.map
        (·.shift (byteSize (upper ++ "\n").toList))).modifyHead (·.behind trivia) ≠ [] := by
      simp [Lexed.ofSource, Scanned.ofChars_ne_nil]
    exact ⟨_, by rw [htokens, List.dropLast_append_of_ne_nil hne], hfurther.dropLast⟩
  | above h =>
    rw [h, hempty]
    exact ⟨_, rfl, .refl _⟩
  | below h =>
    rw [h, hempty]
    exact ⟨[], (List.append_nil _).symm, rfl, List.forall_mem_nil _⟩

end Text.Stacked

end LuaFront
