import LuaFront.Proofs.Lexeme.Tokens

/-!
A text cut into stretches. The trivia and tokens of a text take it up from its start to its end,
with nothing left out between two of them and nothing taken twice, so that they give the text back
when they are written out in their order.
-/

namespace LuaFront

/-- Where a stretch of text stands, and its characters. -/
structure Stretch where
  span : Span
  text : String

def Trivia.stretch (t : Trivia) : Stretch := ⟨t.span, t.text⟩

/-- The trivia of a token, and after them the token itself. -/
def Token.stretches (t : Token) : List Stretch := t.trivia.map Trivia.stretch ++ [⟨t.span, t.text⟩]

/-- Spans that follow each other without a gap from one offset to another. -/
def Tile : (start : Offset) → List Span → (stop : Offset) → Prop
  | start, [], stop => start = stop
  | start, s :: spans, stop => s.start = start ∧ s.start ≤ s.stop ∧ Tile s.stop spans stop

/-- Stretches cut one after the other off the front of a text that begins at an offset, and what
is left of the text. -/
def Cut : (start : Offset) → (cs : List Char) → List Stretch → (stop : Offset) → List Char → Prop
  | start, cs, [], stop, rest => start = stop ∧ cs = rest
  | start, cs, s :: ss, stop, rest =>
    s.span = ⟨start, start + Text.byteSize s.text.toList⟩
      ∧ ∃ mid, cs = s.text.toList ++ mid ∧ Cut s.span.stop mid ss stop rest

namespace Cut

variable {start mid stop : Offset} {cs ds rest : List Char} {ss ts : List Stretch}

lemma append (h : Cut start cs ss mid ds) (h' : Cut mid ds ts stop rest) :
    Cut start cs (ss ++ ts) stop rest := by
  induction ss generalizing start cs with
  | nil =>
    obtain ⟨rfl, rfl⟩ := h
    exact h'
  | cons s ss ih =>
    obtain ⟨hspan, inner, hcs, hinner⟩ := h
    exact ⟨hspan, inner, hcs, ih hinner⟩

lemma cons {text : List Char} (hcs : cs = text ++ ds)
    (h : Cut (start + Text.byteSize text) ds ss stop rest) :
    Cut start cs (⟨⟨start, start + Text.byteSize text⟩, String.ofList text⟩ :: ss) stop rest := by
  refine ⟨?_, ds, ?_, h⟩
  · rw [String.toList_ofList]
  · rwa [String.toList_ofList]

lemma tile (h : Cut start cs ss stop rest) : Tile start (ss.map (·.span)) stop := by
  induction ss generalizing start cs with
  | nil => exact h.1
  | cons s ss ih =>
    obtain ⟨hspan, inner, -, hinner⟩ := h
    rw [List.map_cons]
    refine ⟨by rw [hspan], ?_, ih hinner⟩
    rw [hspan]
    exact Nat.le_add_right _ _

lemma text_eq (h : Cut start cs ss stop rest) : cs = ss.flatMap (·.text.toList) ++ rest := by
  induction ss generalizing start cs with
  | nil => exact h.2
  | cons s ss ih =>
    obtain ⟨-, inner, hcs, hinner⟩ := h
    rw [hcs, ih hinner, List.flatMap_cons, List.append_assoc]

/-- Each stretch has characters in front of it that end where it begins. -/
lemma exists_split (h : Cut start cs ss stop rest) {s : Stretch} (hs : s ∈ ss) :
    ∃ front back, cs = front ++ s.text.toList ++ back
      ∧ s.span = ⟨start + Text.byteSize front,
        start + Text.byteSize (front ++ s.text.toList)⟩ := by
  induction ss generalizing start cs with
  | nil => cases hs
  | cons t ss ih =>
    obtain ⟨hspan, inner, hcs, hinner⟩ := h
    rcases List.mem_cons.1 hs with rfl | hs
    · exact ⟨[], inner, hcs, hspan⟩
    · obtain ⟨front, back, hsplit, hfront⟩ := ih hinner hs
      refine ⟨t.text.toList ++ front, back, by rw [hcs, hsplit]; simp, ?_⟩
      rw [hfront, hspan]
      simp only [Text.byteSize_append, Nat.add_assoc]

end Cut

/-! ### The stretches of a text -/

lemma Gap.ofChars_cut (offset : Offset) (cs : List Char) :
    Cut offset cs ((ofChars offset cs).trivia.map Trivia.stretch) (ofChars offset cs).stop
      (ofChars offset cs).rest := by
  fun_induction ofChars offset cs with
  | case1 offset cs => exact ⟨rfl, rfl⟩
  | case2 offset cs piece h stop inner ih => exact Cut.cons (piece?_append h).symm ih

lemma Scanned.ofChars_cut (offset : Offset) (cs : List Char) :
    Cut offset cs ((ofChars offset cs).flatMap (·.token.stretches)) (offset + Text.byteSize cs)
      [] := by
  fun_induction ofChars offset cs with
  | case1 offset cs gap hrest =>
    have hgap := Gap.ofChars_cut offset cs
    have hstop := Gap.ofChars_stop offset cs
    rw [hrest, Text.byteSize, Nat.add_zero] at hstop
    rw [hrest] at hgap
    rw [List.flatMap_singleton]
    exact hgap.append ⟨rfl, [], rfl, hstop, rfl⟩
  | case2 offset cs gap c rest hrest _ _ lexeme stop token ih =>
    have hgap := Gap.ofChars_cut offset cs
    have happend := Lexeme.ofChars_append c rest
    have hsize : stop + Text.byteSize lexeme.rest = offset + Text.byteSize cs := by
      rw [← Gap.ofChars_stop offset cs, hrest, ← happend, Text.byteSize_append, ← Nat.add_assoc]
    rw [hsize] at ih
    rw [hrest] at hgap
    rw [List.flatMap_cons, Token.stretches, List.append_assoc]
    exact hgap.append (Cut.cons happend.symm ih)

namespace Lexed

/-- The trivia and tokens of a source text, in their order. -/
def stretches (l : Lexed) : List Stretch := l.tokens.flatMap Token.stretches

lemma ofSource_cut (source : String) :
    Cut 0 source.toList (ofSource source).stretches (Text.byteSize source.toList) [] := by
  have h := Scanned.ofChars_cut 0 source.toList
  rw [Nat.zero_add] at h
  simpa only [stretches, ofSource, List.flatMap_map] using h

end Lexed

lemma Token.toList_sourceOf (tokens : List Token) :
    (sourceOf tokens).toList = (tokens.flatMap stretches).flatMap (·.text.toList) := by
  rw [sourceOf, String.toList_join, List.flatMap_assoc, List.flatMap_map]
  refine congrArg (tokens.flatMap ·) (funext fun t => ?_)
  simp [source, stretches, Trivia.stretch, String.toList_join, List.flatMap_map]

/-- **Tokens lose nothing of their text**: with the trivia in front of them they tile it, each
has the characters at its span, and together they give the text back. Only the last one stands
for the end of input; all others have characters. -/
theorem Lexed.tokens_tile (source : String) :
    Tile 0 ((ofSource source).stretches.map (·.span)) (Text.byteSize source.toList)
      ∧ (∀ s ∈ (ofSource source).stretches,
        Text.isBoundary source.toList s.span.start = true
          ∧ Text.isBoundary source.toList s.span.stop = true
          ∧ s.span.slice? source = some s.text)
      ∧ (∃ read eof, (ofSource source).tokens = read ++ [eof] ∧ eof.kind = .eof
        ∧ ∀ t ∈ read, t.kind ≠ .eof ∧ t.text ≠ "")
      ∧ Token.sourceOf (ofSource source).tokens = source := by
  have hcut := ofSource_cut source
  refine ⟨hcut.tile, fun s hs => ?_, ?_, ?_⟩
  · obtain ⟨front, back, hsource, hspan⟩ := hcut.exists_split hs
    rw [Span.slice?, hspan, hsource, Nat.zero_add, Nat.zero_add]
    refine ⟨?_, Text.isBoundary_byteSize _ _, ?_⟩
    · rw [List.append_assoc]
      exact Text.isBoundary_byteSize _ _
    · rw [Text.slice?_eq, Option.map_some, String.ofList_toList]
  · obtain ⟨read, last, -, heq, hread, -, -, heof, -⟩ := Scanned.ofChars_laid 0 source.toList
    refine ⟨read.map (·.token), last.token, by simp [ofSource, heq], heof, ?_⟩
    simpa using fun x hx => ⟨(hread x hx).kind, (hread x hx).text⟩
  · rw [← String.toList_inj, Token.toList_sourceOf, ← List.append_nil (List.flatMap _ _)]
    exact hcut.text_eq.symm

end LuaFront
