import LuaFront.Proofs.Lexeme.Tokens
import Mathlib.Data.List.TakeWhile

/-!
Two texts in one, with a line feed between them. If no error is reported about the first text, its
tokens are the same with the second text behind it, and the tokens of the second text follow; only
the blanks and comments around the line feed end up in one gap.
-/

namespace LuaFront

open Text

/-- There are no errors; there may be warnings. -/
def Diagnostic.Harmless (ds : List Diagnostic) : Prop := ∀ d ∈ ds, d.severity ≠ .error

namespace Diagnostic

variable {ds es : List Diagnostic} {distance : Nat}

@[simp] lemma harmless_nil : Harmless [] := List.forall_mem_nil _

@[simp] lemma harmless_append : Harmless (ds ++ es) ↔ Harmless ds ∧ Harmless es :=
  List.forall_mem_append

@[simp] lemma harmless_shift : Harmless (ds.map (·.shift distance)) ↔ Harmless ds :=
  List.forall_mem_map

@[simp] lemma not_harmless_error {span : Span} {message : String} {labels : List Label} :
    ¬ Harmless [.error span message labels] := fun h => h _ (List.mem_singleton_self _) rfl

end Diagnostic

variable {cs ds tail : List Char} {offset : Offset}

/-! ### What stops at a line feed, or before the end of the first text -/

section Fronts

variable {p : Char → Bool}

lemma takeWhile_joined (h : p '\n' = false) :
    (cs ++ '\n' :: ds).takeWhile p = cs.takeWhile p := by
  rw [List.takeWhile_append]
  split
  · next hall => simp [h, (List.takeWhile_prefix p).eq_of_length hall]
  · rfl

lemma dropWhile_joined (h : p '\n' = false) :
    (cs ++ '\n' :: ds).dropWhile p = cs.dropWhile p ++ '\n' :: ds := by
  rw [List.dropWhile_append]
  split
  · next hall => simp [h, List.isEmpty_iff.1 hall]
  · rfl

lemma takeWhile_of_stopped (h : cs.dropWhile p ≠ []) :
    (cs ++ tail).takeWhile p = cs.takeWhile p := by
  rw [List.takeWhile_append, if_neg]
  intro hall
  have hlength := congrArg List.length (List.takeWhile_append_dropWhile (p := p) (l := cs))
  rw [List.length_append, hall] at hlength
  exact h (List.eq_nil_of_length_eq_zero (by omega))

lemma dropWhile_of_stopped (h : cs.dropWhile p ≠ []) :
    (cs ++ tail).dropWhile p = cs.dropWhile p ++ tail := by
  rw [List.dropWhile_append, if_neg (by simpa using h)]

/-- Up to `n` characters are taken while they fit, and there are more. -/
lemma takeWhile_take_of_stopped (tail : List Char) {n : Nat}
    (h : cs.drop ((cs.take n).takeWhile p).length ≠ []) :
    ((cs ++ tail).take n).takeWhile p = (cs.take n).takeWhile p := by
  rw [List.take_append]
  by_cases hn : n ≤ cs.length
  · simp [Nat.sub_eq_zero_of_le hn]
  · rw [List.take_of_length_le (by omega)] at h ⊢
    refine takeWhile_of_stopped fun hnil => h ?_
    rw [List.drop_eq_nil_iff]
    have hlength := congrArg List.length (List.takeWhile_append_dropWhile (p := p) (l := cs))
    rw [hnil, List.length_append] at hlength
    exact Nat.le_of_eq hlength.symm

end Fronts

/-! ### Strings -/

namespace Quoted

lemma lineBreak_before {c second : Char} (h : (lineBreak c second cs).rest ≠ []) :
    lineBreak c second (cs ++ tail) = { lineBreak c second cs with
      rest := (lineBreak c second cs).rest ++ tail } := by
  cases cs with
  | nil => exact absurd rfl h
  | cons d cs =>
    simp only [List.cons_append, lineBreak]
    split <;> rfl

lemma byteEscape_before (h : (byteEscape cs).rest ≠ []) :
    byteEscape (cs ++ tail)
      = { byteEscape cs with rest := (byteEscape cs).rest ++ tail } := by
  have hdigits := takeWhile_take_of_stopped tail h
  have hle : ((cs.take 2).takeWhile Numeral.isHexDigit).length ≤ cs.length :=
    Nat.le_of_lt (by simpa [byteEscape] using h)
  simp only [byteEscape, hdigits, List.drop_append_of_le_length hle]

lemma decimalEscape_before (h : (decimalEscape cs).rest ≠ []) :
    decimalEscape (cs ++ tail)
      = { decimalEscape cs with rest := (decimalEscape cs).rest ++ tail } := by
  have hdigits := takeWhile_take_of_stopped tail h
  have hle : ((cs.take 3).takeWhile Char.isDigit).length ≤ cs.length :=
    Nat.le_of_lt (by simpa [decimalEscape] using h)
  simp only [decimalEscape, hdigits, List.drop_append_of_le_length hle]

lemma scalarEscape_before (h : (scalarEscape cs).rest ≠ []) :
    scalarEscape (cs ++ tail)
      = { scalarEscape cs with rest := (scalarEscape cs).rest ++ tail } := by
  rcases cs with _ | ⟨c, cs⟩
  · exact absurd rfl h
  by_cases hc : c = '\x7b'
  · subst hc
    have hstop : cs.dropWhile Numeral.isHexDigit ≠ [] := by
      intro hnil
      rw [scalarEscape, hnil] at h
      split at h
      · next hrest => cases hrest
      · exact h rfl
    obtain ⟨d, rest, hrest⟩ := List.exists_cons_of_ne_nil hstop
    rw [List.cons_append, scalarEscape, scalarEscape, takeWhile_of_stopped hstop,
      dropWhile_of_stopped hstop, hrest, List.cons_append]
    cases cs.takeWhile Numeral.isHexDigit with
    | nil => rfl
    | cons digit digits =>
      by_cases hd : d = '\x7d'
      · subst hd
        rfl
      · simp [hd]
  · have hbare : ∀ tail, (c :: tail).head? ≠ some '\x7b' := fun _ => by simpa using hc
    rw [List.cons_append, scalarEscape_bare (hbare _), scalarEscape_bare (hbare _)]
    rfl

lemma escape_before (h : (escape cs).rest ≠ []) :
    escape (cs ++ tail) = { escape cs with rest := (escape cs).rest ++ tail } := by
  cases cs with
  | nil => exact absurd rfl h
  | cons c cs =>
    revert h
    simp only [List.cons_append, escape]
    repeat' split
    all_goals intro h
    · rfl
    · exact lineBreak_before h
    · exact lineBreak_before h
    · rw [takeWhile_of_stopped h, dropWhile_of_stopped h]
    · exact byteEscape_before h
    · exact scalarEscape_before h
    · exact decimalEscape_before h
    · rfl

/-- A string that is closed has no part in what comes after it. -/
lemma body_before {quote : Char} (h : (body quote offset cs).closed = true) :
    body quote offset (cs ++ tail)
      = { body quote offset cs with rest := (body quote offset cs).rest ++ tail } := by
  fun_induction body quote offset cs with
  | case1 => cases h
  | case2 => cases h
  | case3 offset cs hbreak =>
    rw [List.cons_append, body, if_neg hbreak, if_pos rfl]
  | case4 offset cs e stop inner hbreak hquote ih =>
    have hrest : e.rest ≠ [] := by
      intro hnil
      simp only [inner, hnil, body] at h
      cases h
    rw [List.cons_append, body, if_neg hbreak, if_neg hquote, if_pos rfl, escape_before hrest]
    simp only [e, stop, inner] at ih h ⊢
    rw [ih h]
  | case5 offset c cs hbreak hquote hslash inner ih =>
    rw [List.cons_append, body, if_neg hbreak, if_neg hquote, if_neg hslash, ih h]

lemma scan_before {quote c : Char} (h : Diagnostic.Harmless (scan quote (c :: cs)).diagnostics) :
    scan quote (c :: cs ++ tail) = { scan quote (c :: cs) with
      rest := (scan quote (c :: cs)).rest ++ tail } := by
  have hclosed : (body quote 1 cs).closed = true := by
    simp only [scan, List.drop_one, List.tail_cons] at h
    cases hclosed : (body quote 1 cs).closed with
    | true => rfl
    | false => simp [hclosed] at h
  simp only [scan, List.cons_append, List.drop_one, List.tail_cons, body_before hclosed, hclosed]

end Quoted

namespace LongBracket

lemma level?_joined : level? (cs ++ '\n' :: ds) = level? cs := by
  rcases cs with _ | ⟨c, cs⟩
  · rfl
  by_cases hc : c = '['
  · subst hc
    rw [List.cons_append, level?, level?, dropWhile_joined rfl, takeWhile_joined rfl]
    cases cs.dropWhile (· = '=') with
    | nil => rfl
    | cons d rest =>
      by_cases hd : d = '['
      · subst hd
        rfl
      · simp [hd]
  · simp [level?, hc]

lemma length_le_of_closed {level : Nat} (h : (body level cs).closed = true) :
    level + 2 ≤ cs.length := by
  fun_induction body level cs with
  | case1 => cases h
  | case2 cs signs after hclose =>
    have hlength := congrArg List.length
      (List.takeWhile_append_dropWhile : signs ++ after = cs)
    rw [Bool.and_eq_true, decide_eq_true_eq, decide_eq_true_eq] at hclose
    obtain ⟨rest, hrest⟩ := List.head?_eq_some_iff.1 hclose.2
    rw [List.length_append, hclose.1, congrArg List.length hrest, List.length_cons] at hlength
    rw [List.length_cons]
    omega
  | case3 cs signs after _ inner ih =>
    have hlength : after.length ≤ cs.length := (List.dropWhile_suffix _).length_le
    have hinner := ih h
    rw [List.length_cons]
    omega
  | case4 c cs _ inner ih => exact Nat.le_succ_of_le (ih h)

lemma body_before {level : Nat} (h : (body level cs).closed = true) :
    body level (cs ++ tail)
      = { body level cs with rest := (body level cs).rest ++ tail } := by
  fun_induction body level cs with
  | case1 => cases h
  | case2 cs signs after hclose =>
    have hafter := (Bool.and_eq_true_iff.1 hclose).2
    obtain ⟨rest, hrest⟩ := List.head?_eq_some_iff.1 (of_decide_eq_true hafter)
    have hstop : cs.dropWhile (· = '=') ≠ [] := fun hnil =>
      List.cons_ne_nil ']' rest (hrest.symm.trans hnil)
    simp only [signs, after] at hclose hrest ⊢
    simp only [hrest, List.head?_cons] at hclose ⊢
    rw [List.cons_append, body, if_pos rfl, takeWhile_of_stopped hstop, dropWhile_of_stopped hstop]
    simp only [hrest, List.cons_append, List.head?_cons, if_pos hclose]
    rfl
  | case3 cs signs after hclose inner ih =>
    have hstop : cs.dropWhile (· = '=') ≠ [] := by
      intro hnil
      simp only [inner, after, hnil, body] at h
      cases h
    obtain ⟨c, rest, hrest⟩ := List.exists_cons_of_ne_nil hstop
    simp only [signs, after, inner, hrest, List.head?_cons, List.cons_append] at hclose ih h ⊢
    rw [body, if_pos rfl, takeWhile_of_stopped hstop, dropWhile_of_stopped hstop]
    simp only [hrest, List.cons_append, List.head?_cons, if_neg hclose]
    rw [ih h]
  | case4 c cs hc inner ih =>
    rw [List.cons_append, body, if_neg hc, ih h]

lemma rest_of_open {level : Nat} (h : (body level cs).closed = false) :
    (body level cs).rest = [] := by
  fun_induction body level cs with
  | case1 => rfl
  | case2 => cases h
  | case3 cs signs after _ inner ih => exact ih h
  | case4 c cs _ inner ih => exact ih h

lemma bracket_before {level : Nat} (h : (bracket level cs).closed = true) :
    bracket level (cs ++ tail)
      = { bracket level cs with rest := (bracket level cs).rest ++ tail } := by
  have hlength := length_le_of_closed (show (body _ (cs.drop (level + 2))).closed = true from h)
  have hle : level + 2 ≤ cs.length := by
    rw [List.length_drop] at hlength
    omega
  rw [bracket, bracket, List.drop_append_of_le_length hle, List.take_append_of_le_length hle,
    body_before h]

lemma scan_joined (h : Diagnostic.Harmless (scan cs).diagnostics) :
    scan (cs ++ '\n' :: ds) = { scan cs with rest := (scan cs).rest ++ '\n' :: ds } := by
  unfold scan at h ⊢
  rw [level?_joined]
  cases hlevel : level? cs with
  | none => simp [hlevel, Lexeme.malformed] at h
  | some level =>
    have hclosed : (bracket level cs).closed = true := by
      cases hclosed : (bracket level cs).closed with
      | true => rfl
      | false => simp [hlevel, hclosed, Lexeme.malformed] at h
    simp only [bracket_before hclosed, hclosed]
    rfl

end LongBracket

/-! ### Numerals, words and symbols -/

namespace Numeral

lemma splitBase_joined : splitBase (cs ++ '\n' :: ds)
    = ((splitBase cs).1, (splitBase cs).2.1, (splitBase cs).2.2 ++ '\n' :: ds) := by
  rcases cs with _ | ⟨c, _ | ⟨d, cs⟩⟩
  · rfl
  · simp [splitBase]
  · simp only [List.cons_append]
    unfold splitBase
    split <;> split <;> simp_all

lemma splitFraction_joined {base : Base} : splitFraction base (cs ++ '\n' :: ds)
    = ((splitFraction base cs).1, (splitFraction base cs).2 ++ '\n' :: ds) := by
  have hdigit : base.isDigit '\n' = false := by cases base <;> rfl
  rcases cs with _ | ⟨c, cs⟩
  · rfl
  by_cases hc : c = '.'
  · subst hc
    simp [splitFraction, takeWhile_joined hdigit, dropWhile_joined hdigit]
  · simp [splitFraction, hc]

lemma splitSign_joined :
    splitSign (cs ++ '\n' :: ds) = ((splitSign cs).1, (splitSign cs).2 ++ '\n' :: ds) := by
  cases cs with
  | nil => rfl
  | cons c cs =>
    simp only [List.cons_append]
    unfold splitSign
    split <;> split <;> simp_all

lemma splitExponent_joined {base : Base} : splitExponent base (cs ++ '\n' :: ds)
    = ((splitExponent base cs).1, (splitExponent base cs).2 ++ '\n' :: ds) := by
  have hdigit : Char.isDigit '\n' = false := rfl
  cases cs with
  | nil => cases base <;> rfl
  | cons c cs =>
    simp only [List.cons_append, splitExponent]
    split
    · simp [splitSign_joined, takeWhile_joined, dropWhile_joined, hdigit]
    · rfl

lemma scan_joined :
    scan (cs ++ '\n' :: ds) = { scan cs with rest := (scan cs).rest ++ '\n' :: ds } := by
  have hdigit : ∀ base : Base, base.isDigit '\n' = false := by rintro (_ | _) <;> rfl
  have htail : isTail '\n' = false := rfl
  unfold scan
  simp only [splitBase_joined, takeWhile_joined (hdigit _), dropWhile_joined (hdigit _),
    splitFraction_joined, splitExponent_joined, takeWhile_joined htail, dropWhile_joined htail]
  split <;> rfl

end Numeral

namespace Lexeme

lemma atFront?_joined : Symbol.atFront? (cs ++ '\n' :: ds) = Symbol.atFront? cs := by
  refine congrArg (Symbol.all.find? ·) (funext fun sign => ?_)
  have hsign : '\n' ∉ sign.chars := by cases sign <;> decide
  rw [Bool.eq_iff_iff, List.isPrefixOf_iff_prefix, List.isPrefixOf_iff_prefix]
  refine ⟨fun h => ?_, fun h => h.trans (List.prefix_append ..)⟩
  by_cases hle : sign.chars.length ≤ cs.length
  · exact List.prefix_of_prefix_length_le h (List.prefix_append ..) hle
  · have hfront : cs ++ ['\n'] <+: sign.chars := by
      have hwhole : cs ++ ['\n'] <+: cs ++ '\n' :: ds := ⟨ds, by simp⟩
      refine List.prefix_of_prefix_length_le hwhole h ?_
      simp only [List.length_append, List.length_singleton]
      omega
    exact absurd (hfront.subset (by simp)) hsign

lemma symbol_joined {c : Char} :
    symbol c (cs ++ '\n' :: ds)
      = { symbol c cs with rest := (symbol c cs).rest ++ '\n' :: ds } := by
  unfold symbol
  rw [← List.cons_append, atFront?_joined]
  cases hsign : Symbol.atFront? (c :: cs) with
  | none => rfl
  | some sign =>
    have hfront : sign.chars.isPrefixOf (c :: cs) = true := by
      simpa using List.find?_some (p := fun s : Symbol => s.chars.isPrefixOf (c :: cs)) hsign
    simp only [plain]
    rw [List.drop_append_of_le_length (List.isPrefixOf_iff_prefix.1 hfront).length_le]

lemma ofChars_joined (ds : List Char) {c : Char}
    (h : Diagnostic.Harmless (ofChars c cs).diagnostics) :
    ofChars c (cs ++ '\n' :: ds)
      = { ofChars c cs with rest := (ofChars c cs).rest ++ '\n' :: ds } := by
  have hdigit : (cs ++ '\n' :: ds).head?.any Char.isDigit = cs.head?.any Char.isDigit := by
    cases cs <;> rfl
  have hhead : ∀ d, d ≠ '\n' →
      decide ((cs ++ '\n' :: ds).head? = some d) = decide (cs.head? = some d) := by
    intro d hd
    cases cs <;> simp [hd.symm]
  unfold ofChars at h ⊢
  rw [← List.cons_append, hdigit, hhead '[' (by decide), hhead '=' (by decide)]
  revert h
  repeat' split
  all_goals intro h
  · exact Quoted.scan_before h
  · exact LongBracket.scan_joined h
  · exact Numeral.scan_joined
  · have hinner : Word.isInner '\n' = false := rfl
    simp only [Word.scan, takeWhile_joined hinner, dropWhile_joined hinner]
    rfl
  · exact symbol_joined

end Lexeme

/-! ### Gaps -/

/-- The comments among the pieces of a gap. -/
def Trivia.comments (pieces : List Trivia) : List Trivia := pieces.filter (·.isComment)

lemma Trivia.comments_cons (piece : Trivia) (pieces : List Trivia) :
    comments (piece :: pieces) = comments [piece] ++ comments pieces :=
  List.filter_append [piece] pieces

namespace Gap

open Trivia

lemma comment_joined
    (h : (comment cs).rest ≠ [] ∨ Diagnostic.Harmless (comment cs).diagnostics) :
    comment (cs ++ '\n' :: ds) = { comment cs with rest := (comment cs).rest ++ '\n' :: ds } := by
  unfold comment at h ⊢
  rw [LongBracket.level?_joined]
  cases hlevel : LongBracket.level? cs with
  | none =>
    simp only [takeWhile_joined (p := fun c => decide (c ≠ '\n')) (by decide),
      dropWhile_joined (p := fun c => decide (c ≠ '\n')) (by decide)]
  | some level =>
    have hclosed : (LongBracket.bracket level cs).closed = true := by
      cases hclosed : (LongBracket.bracket level cs).closed with
      | true => rfl
      | false =>
        have hrest : (LongBracket.bracket level cs).rest = [] :=
          LongBracket.rest_of_open (show (LongBracket.body _ _).closed = false from hclosed)
        simp [hlevel, hclosed, hrest] at h
    simp only [LongBracket.bracket_before hclosed]

lemma piece?_blank {c : Char} (h : isSpace c = true) : piece? (c :: cs)
    = some ⟨.whitespace, c :: cs.takeWhile isSpace, cs.dropWhile isSpace, []⟩ :=
  if_pos h

lemma piece?_joined (ds : List Char) {p : Piece} (h : piece? cs = some p)
    (hp : p.rest ≠ [] ∨ p.kind ≠ .whitespace ∧ Diagnostic.Harmless p.diagnostics) :
    piece? (cs ++ '\n' :: ds) = some { p with rest := p.rest ++ '\n' :: ds } := by
  unfold piece? at h
  split at h
  · cases h
  split at h
  · next c cs hspace =>
    cases h
    have hstop : cs.dropWhile isSpace ≠ [] := hp.resolve_right fun hkind => hkind.1 rfl
    rw [List.cons_append, piece?_blank hspace, takeWhile_of_stopped hstop,
      dropWhile_of_stopped hstop]
  split at h
  · next cs _ =>
    cases h
    exact congrArg some (comment_joined (hp.imp_right And.right))
  · cases h

/-- No piece begins at a character that is no blank, nor the first of two dashes. -/
lemma piece?_eq_none_iff {c : Char} :
    piece? (c :: cs) = none ↔ isSpace c = false ∧ ¬ (c = '-' ∧ cs.head? = some '-') := by
  unfold piece?
  by_cases hspace : isSpace c = true
  · simp [hspace]
  dsimp only
  rw [if_neg hspace]
  split
  · simp
  · next hdashes =>
    refine iff_of_true rfl ⟨Bool.not_eq_true _ ▸ hspace, ?_⟩
    rintro ⟨rfl, hhead⟩
    obtain ⟨tail, rfl⟩ := List.head?_eq_some_iff.1 hhead
    exact hdashes tail rfl rfl

lemma piece?_none_joined {c : Char} (h : piece? (c :: cs) = none) :
    piece? (c :: cs ++ '\n' :: ds) = none := by
  rw [List.cons_append, piece?_eq_none_iff]
  rw [piece?_eq_none_iff] at h
  cases cs with
  | nil => exact ⟨h.1, by simp⟩
  | cons d cs => exact h

/-- A gap that ends before the end of the first text. -/
lemma ofChars_joined (ds : List Char) (h : (ofChars offset cs).rest ≠ []) :
    ofChars offset (cs ++ '\n' :: ds)
      = { ofChars offset cs with rest := (ofChars offset cs).rest ++ '\n' :: ds } := by
  fun_induction ofChars offset cs with
  | case1 offset cs hpiece =>
    obtain ⟨c, cs, rfl⟩ := List.exists_cons_of_ne_nil h
    rw [ofChars_of_none (piece?_none_joined hpiece)]
  | case2 offset cs piece hpiece stop inner ih =>
    have hrest : piece.rest ≠ [] := by
      intro hnil
      simp only [inner, hnil] at h
      rw [ofChars_of_none rfl] at h
      exact h rfl
    rw [ofChars_of_some (piece?_joined ds hpiece (.inl hrest)), ih h]

lemma isSpace_of_piece? {p : Piece} (h : piece? cs = some p) (hkind : p.kind = .whitespace) :
    ∀ c ∈ p.text, isSpace c = true := by
  unfold piece? at h
  split at h
  · cases h
  split at h
  · next hspace =>
    cases h
    exact List.forall_mem_cons.2 ⟨hspace, fun c hc => List.mem_takeWhile_imp hc⟩
  split at h
  · cases h
    unfold comment at hkind
    split at hkind <;> cases hkind
  · cases h

/-- All that is reported about a gap are errors. -/
lemma diagnostics_of_harmless {p : Piece} (h : piece? cs = some p)
    (hp : Diagnostic.Harmless p.diagnostics) : p.diagnostics = [] := by
  unfold piece? at h
  split at h
  · cases h
  split at h
  · cases h
    rfl
  split at h
  · next cs _ =>
    cases h
    unfold comment at hp ⊢
    cases hlevel : LongBracket.level? cs with
    | none => rfl
    | some level =>
      rw [hlevel] at hp
      cases hclosed : (LongBracket.bracket level cs).closed with
      | true => simp [hclosed]
      | false => simp [hclosed] at hp
  · cases h

lemma ofChars_skip (offset : Offset) (cs : List Char) :
    ∃ trivia, ofChars offset cs
        = { ofChars (offset + byteSize (cs.takeWhile isSpace)) (cs.dropWhile isSpace) with trivia }
      ∧ comments trivia = comments (ofChars (offset + byteSize (cs.takeWhile isSpace))
        (cs.dropWhile isSpace)).trivia := by
  cases cs with
  | nil => exact ⟨_, rfl, rfl⟩
  | cons c cs =>
    by_cases hc : isSpace c = true
    · rw [ofChars_of_some (piece?_blank hc), List.takeWhile_cons_of_pos hc,
        List.dropWhile_cons_of_pos hc]
      exact ⟨_, rfl, List.filter_cons_of_neg (by simp [isComment])⟩
    · rw [List.takeWhile_cons_of_neg hc, List.dropWhile_cons_of_neg hc]
      exact ⟨_, rfl, rfl⟩

/-- Blanks in front of a gap. -/
lemma ofChars_blanks (offset : Offset) (ds : List Char) {blanks : List Char}
    (h : ∀ c ∈ blanks, isSpace c = true) :
    ∃ trivia, ofChars offset (blanks ++ ds)
        = { ofChars (offset + byteSize blanks) ds with trivia }
      ∧ comments trivia = comments (ofChars (offset + byteSize blanks) ds).trivia := by
  obtain ⟨trivia, heq, hcomments⟩ := ofChars_skip offset (blanks ++ ds)
  obtain ⟨trivia', heq', hcomments'⟩ := ofChars_skip (offset + byteSize blanks) ds
  rw [List.takeWhile_append_of_pos h, List.dropWhile_append_of_pos h, byteSize_append,
    ← Nat.add_assoc] at heq hcomments
  refine ⟨trivia, ?_, ?_⟩
  · rw [heq, heq']
  · rw [hcomments, heq', hcomments']

/-- A gap that reaches the end of the first text goes on behind it. The blanks before that end go
together with the line feed. -/
lemma ofChars_across (ds : List Char) (hrest : (ofChars offset cs).rest = [])
    (h : Diagnostic.Harmless (ofChars offset cs).diagnostics) :
    ∃ (front : List Trivia) (blanks : List Char) (stop : Nat), (∀ c ∈ blanks, isSpace c = true)
      ∧ ofChars offset (cs ++ '\n' :: ds) = { ofChars stop (blanks ++ '\n' :: ds) with
          trivia := front ++ (ofChars stop (blanks ++ '\n' :: ds)).trivia }
      ∧ comments front = comments (ofChars offset cs).trivia
      ∧ stop + byteSize blanks = offset + byteSize cs := by
  fun_induction ofChars offset cs with
  | case1 offset cs hpiece =>
    cases hrest
    exact ⟨[], [], offset, by simp, rfl, rfl, rfl⟩
  | case2 offset cs piece hpiece stop inner ih =>
    have hcs := piece?_append hpiece
    by_cases hblank : piece.rest = [] ∧ piece.kind = .whitespace
    · rw [hblank.1, List.append_nil] at hcs
      refine ⟨[], cs, offset, hcs ▸ isSpace_of_piece? hpiece hblank.2, rfl, ?_, rfl⟩
      have hinner : inner.trivia = [] := by
        simp only [inner, hblank.1]
        rw [ofChars_of_none rfl]
      rw [hinner]
      exact (List.filter_cons_of_neg (by simp [isComment, hblank.2])).symm
    · obtain ⟨hown, hlater⟩ := Diagnostic.harmless_append.1 h
      rw [Diagnostic.harmless_shift] at hown
      have hpiece' := piece?_joined ds hpiece (by
        by_cases hnil : piece.rest = []
        · exact .inr ⟨fun hkind => hblank ⟨hnil, hkind⟩, hown⟩
        · exact .inl hnil)
      obtain ⟨front, blanks, last, hblanks, heq, hcomments, hsize⟩ := ih hrest hlater
      refine ⟨⟨piece.kind, String.ofList piece.text, ⟨offset, stop⟩⟩ :: front, blanks, last,
        hblanks, ?_, ?_, ?_⟩
      · rw [ofChars_of_some hpiece', heq, diagnostics_of_harmless hpiece hown]
        rfl
      · rw [comments_cons, hcomments, comments_cons _ inner.trivia]
      · rw [hsize, ← hcs, byteSize_append, ← Nat.add_assoc]

end Gap

/-! ### Tokens -/

/-- The token with another gap in front of it. -/
def Token.behind (t : Token) (trivia : List Trivia) : Token := { t with trivia }

def Scanned.behind (x : Scanned) (trivia : List Trivia) : Scanned :=
  { x with token := x.token.behind trivia }

/-- The comments in front of a token. -/
def Token.comments (t : Token) : List Trivia := Trivia.comments t.trivia

namespace Scanned

open Trivia

lemma ofChars_of_nil (h : (Gap.ofChars offset cs).rest = []) : ofChars offset cs
    = [{ token := ⟨.eof, "", .empty (Gap.ofChars offset cs).stop, (Gap.ofChars offset cs).trivia⟩
         diagnostics := (Gap.ofChars offset cs).diagnostics }] := by
  rw [ofChars]
  split
  · rfl
  · next hrest =>
    rw [h] at hrest
    cases hrest

/-- The token after a gap. -/
def first (gap : Gap) (l : Lexeme) : Scanned where
  token := ⟨l.kind, String.ofList l.text, ⟨gap.stop, gap.stop + byteSize l.text⟩, gap.trivia⟩
  diagnostics := gap.diagnostics ++ l.diagnostics.map (·.shift gap.stop)

lemma ofChars_of_cons {c : Char} {rest : List Char}
    (h : (Gap.ofChars offset cs).rest = c :: rest) : ofChars offset cs
      = first (Gap.ofChars offset cs) (Lexeme.ofChars c rest)
        :: ofChars ((Gap.ofChars offset cs).stop + byteSize (Lexeme.ofChars c rest).text)
          (Lexeme.ofChars c rest).rest := by
  rw [ofChars]
  split
  · next hrest =>
    rw [h] at hrest
    cases hrest
  · next hrest =>
    rw [h] at hrest
    cases hrest
    rfl

/-- A text that one lexeme takes up. -/
lemma ofChars_single {c : Char} (offset : Offset) (hgap : Gap.piece? (c :: cs) = none)
    (hrest : (Lexeme.ofChars c cs).rest = []) :
    ofChars offset (c :: cs)
      = [first ⟨[], offset, c :: cs, []⟩ (Lexeme.ofChars c cs),
        ⟨⟨.eof, "", .empty (offset + byteSize (Lexeme.ofChars c cs).text), []⟩, []⟩] := by
  have hopen : Gap.ofChars offset (c :: cs) = ⟨[], offset, c :: cs, []⟩ := Gap.ofChars_of_none hgap
  have hend : ∀ stop, Gap.ofChars stop [] = ⟨[], stop, [], []⟩ := fun _ => Gap.ofChars_of_none rfl
  rw [ofChars_of_cons (by rw [hopen]), hopen, hrest, ofChars_of_nil (by rw [hend]), hend]

/-- Only the gap in front of the first token of a text depends on what the gap holds. -/
lemma ofChars_of_gap {other : Offset} {trivia : List Trivia}
    (h : Gap.ofChars offset cs = { Gap.ofChars other ds with trivia }) :
    ofChars offset cs = (ofChars other ds).modifyHead (·.behind trivia) := by
  cases hrest : (Gap.ofChars other ds).rest with
  | nil =>
    rw [ofChars_of_nil (by rw [h]; exact hrest), ofChars_of_nil hrest, h]
    rfl
  | cons c rest =>
    rw [ofChars_of_cons (by rw [h]; exact hrest), ofChars_of_cons hrest, h]
    rfl

lemma head_comments (offset : Offset) (cs : List Char) :
    (ofChars offset cs).head?.elim [] (·.token.comments)
      = Trivia.comments (Gap.ofChars offset cs).trivia := by
  cases hrest : (Gap.ofChars offset cs).rest with
  | nil =>
    rw [ofChars_of_nil hrest]
    rfl
  | cons c rest =>
    rw [ofChars_of_cons hrest]
    rfl

/-- The gap at the front of a text goes to a token. -/
lemma exists_gap (offset : Offset) (cs : List Char) :
    ∃ x ∈ ofChars offset cs, x.token.trivia = (Gap.ofChars offset cs).trivia := by
  cases hrest : (Gap.ofChars offset cs).rest with
  | nil =>
    rw [ofChars_of_nil hrest]
    exact ⟨_, List.mem_cons_self, rfl⟩
  | cons c rest =>
    rw [ofChars_of_cons hrest]
    exact ⟨_, List.mem_cons_self, rfl⟩

lemma ofChars_ne_nil (offset : Offset) (cs : List Char) : ofChars offset cs ≠ [] := by
  cases hrest : (Gap.ofChars offset cs).rest with
  | nil => simp [ofChars_of_nil hrest]
  | cons c rest => simp [ofChars_of_cons hrest]

/-- Behind a text about which no error is reported, the blanks at its end go together with the line
feed. -/
lemma ofChars_across (ds : List Char)
    (h : ∀ x ∈ ofChars offset cs, Diagnostic.Harmless x.diagnostics) :
    ∃ (front : List Trivia) (blanks : List Char) (stop : Nat), (∀ c ∈ blanks, isSpace c = true)
      ∧ ofChars offset (cs ++ '\n' :: ds) = (ofChars offset cs).dropLast
        ++ (ofChars stop (blanks ++ '\n' :: ds)).modifyHead
          (·.behind (front ++ (Gap.ofChars stop (blanks ++ '\n' :: ds)).trivia))
      ∧ Trivia.comments front = (ofChars offset cs).getLast?.elim [] (·.token.comments)
      ∧ stop + byteSize blanks = offset + byteSize cs := by
  fun_induction ofChars offset cs with
  | case1 offset cs gap hrest =>
    obtain ⟨front, blanks, stop, hblanks, heq, hcomments, hsize⟩ :=
      Gap.ofChars_across ds hrest (h _ List.mem_cons_self)
    exact ⟨front, blanks, stop, hblanks, ofChars_of_gap heq, hcomments, hsize⟩
  | case2 offset cs gap c rest hrest _ _ lexeme stop token ih =>
    obtain ⟨hown, hlater⟩ := List.forall_mem_cons.1 h
    obtain ⟨front, blanks, last, hblanks, heq, hcomments, hsize⟩ := ih hlater
    have hgap := Gap.ofChars_joined ds (show gap.rest ≠ [] by simp [hrest])
    have hlexeme := Lexeme.ofChars_joined ds
      (Diagnostic.harmless_shift.1 (Diagnostic.harmless_append.1 hown).2)
    have hwhole : stop + byteSize lexeme.rest = offset + byteSize cs := by
      rw [← Gap.ofChars_stop offset cs, hrest, ← Lexeme.ofChars_append c rest, byteSize_append,
        ← Nat.add_assoc]
    obtain ⟨x, others, hothers⟩ := List.exists_cons_of_ne_nil (ofChars_ne_nil stop lexeme.rest)
    refine ⟨front, blanks, last, hblanks, ?_, ?_, hsize.trans hwhole⟩
    · have hcons : (Gap.ofChars offset (cs ++ '\n' :: ds)).rest = c :: (rest ++ '\n' :: ds) := by
        rw [hgap, hrest]
        rfl
      rw [ofChars_of_cons hcons, hlexeme, hgap,
        List.dropLast_cons_of_ne_nil (hothers ▸ List.cons_ne_nil x others), List.cons_append, ← heq]
      rfl
    · rw [hothers] at hcomments ⊢
      exact hcomments

/-- **Texts joined by a line feed are lexed apart**, if no error is reported about the first one.
The gap behind the first one goes to the first token of the second. -/
theorem ofChars_joined (ds : List Char)
    (h : ∀ x ∈ ofChars offset cs, Diagnostic.Harmless x.diagnostics) :
    ∃ trivia, ofChars offset (cs ++ '\n' :: ds) = (ofChars offset cs).dropLast
        ++ (ofChars (offset + byteSize cs + 1) ds).modifyHead (·.behind trivia)
      ∧ Trivia.comments trivia = (ofChars offset cs).getLast?.elim [] (·.token.comments)
        ++ (ofChars (offset + byteSize cs + 1) ds).head?.elim [] (·.token.comments) := by
  obtain ⟨front, blanks, stop, hblanks, heq, hcomments, hsize⟩ := ofChars_across ds h
  have hspace : ∀ c ∈ blanks ++ ['\n'], isSpace c = true :=
    List.forall_mem_append.2 ⟨hblanks, by simp [isSpace]⟩
  obtain ⟨trivia, hgap, htrivia⟩ := Gap.ofChars_blanks stop ds hspace
  have hstop : stop + byteSize (blanks ++ ['\n']) = offset + byteSize cs + 1 := by
    rw [byteSize_append, ← Nat.add_assoc, hsize]
    rfl
  rw [hstop, List.append_assoc, List.singleton_append] at hgap
  rw [hstop] at htrivia
  refine ⟨front ++ trivia, ?_, ?_⟩
  · rw [heq, ofChars_of_gap hgap, List.modifyHead_modifyHead, hgap]
    rfl
  · rw [Trivia.comments, List.filter_append, ← Trivia.comments, ← Trivia.comments, hcomments,
      htrivia, head_comments]

end Scanned

end LuaFront
