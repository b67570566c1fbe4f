import LuaFront.Proofs.Lexeme.Brackets

/-!
The errors of the lexer are its invalid tokens. Each invalid token has one error about the whole of
it; besides there can be one about a block comment that is not closed, with which the text ends.
What is only warned about lies in a string in quotes.
-/

namespace LuaFront

open Text LongBracket

/-- The spans of the errors among diagnostics. -/
def Diagnostic.errorSpans (ds : List Diagnostic) : List Span :=
  (ds.filter (·.severity = .error)).map (·.span)

/-- The spans of the invalid tokens. -/
def Token.invalidSpans (tokens : List Token) : List Span :=
  (tokens.filter (·.kind = .invalid)).map (·.span)

/-- A block comment whose closing bracket stands nowhere behind its opening. -/
def Trivia.Unfinished (p : Trivia) : Prop :=
  p.kind = .blockComment ∧ ∃ level inner, p.text.toList = '-' :: '-' :: (opening level ++ inner)
    ∧ ¬ closing level <:+: inner

variable {cs : List Char} {offset : Offset}

open Diagnostic

namespace Diagnostic

lemma errorSpans_append (ds es : List Diagnostic) :
    errorSpans (ds ++ es) = errorSpans ds ++ errorSpans es := by
  simp [errorSpans]

lemma errorSpans_shift (ds : List Diagnostic) (offset : Nat) :
    errorSpans (ds.map (·.shift offset)) = (errorSpans ds).map (·.shift offset) := by
  simp [errorSpans, List.filter_map, Function.comp_def, shift]

end Diagnostic

namespace Token

lemma invalidSpans_cons (t : Token) (tokens : List Token) :
    invalidSpans (t :: tokens) = invalidSpans [t] ++ invalidSpans tokens := by
  rw [invalidSpans, ← List.singleton_append, List.filter_append, List.map_append]
  rfl

lemma invalidSpans_singleton (t : Token) :
    invalidSpans [t] = if t.kind = .invalid then [t.span] else [] := by
  by_cases hkind : t.kind = .invalid <;> simp [invalidSpans, hkind]

end Token

/-! ### Lexemes -/

lemma Quoted.body_warnings (quote : Char) (offset : Offset) (cs : List Char) :
    ∀ d ∈ (body quote offset cs).diagnostics, d.severity = .warning := by
  fun_induction body quote offset cs with
  | case1 | case2 | case3 => exact List.forall_mem_nil _
  | case4 offset cs e stop inner _ _ ih =>
    intro d hd
    rcases List.mem_append.1 hd with hd | hd
    · obtain ⟨message, -, rfl⟩ := by simpa using hd
      rfl
    · exact ih d hd
  | case5 offset c cs _ _ _ inner ih => exact ih

lemma Quoted.scan_errors (quote : Char) (cs : List Char) :
    (scan quote cs).kind = .string ∧ errorSpans (scan quote cs).diagnostics = []
      ∨ (scan quote cs).kind = .invalid
        ∧ errorSpans (scan quote cs).diagnostics = [Lexeme.spanOf (scan quote cs).text] := by
  have hbody : errorSpans (body quote 1 (cs.drop 1)).diagnostics = [] := by
    rw [errorSpans, List.map_eq_nil_iff, List.filter_eq_nil_iff]
    intro d hd
    simp [body_warnings quote 1 (cs.drop 1) d hd]
  unfold scan
  dsimp only
  split
  · exact .inl ⟨rfl, by rw [List.append_nil, hbody]⟩
  · exact .inr ⟨rfl, by rw [errorSpans_append, hbody]; rfl⟩

namespace Lexeme

/-- The one error about a lexeme is that it is invalid. -/
lemma errorSpans_ofChars (c : Char) (cs : List Char) :
    errorSpans (ofChars c cs).diagnostics
      = if (ofChars c cs).kind = .invalid then [spanOf (ofChars c cs).text] else [] := by
  rcases ofChars_cases c cs with ⟨-, heq⟩ | ⟨hkind, -, hnone⟩ | ⟨hkind, message, hone⟩
  · rw [heq]
    rcases Quoted.scan_errors c (c :: cs) with ⟨hkind, herrors⟩ | ⟨hkind, herrors⟩
    · rw [herrors, hkind]
      rfl
    · rw [herrors, if_pos hkind]
  · rw [hnone, if_neg hkind]
    rfl
  · rw [hone, if_pos hkind]
    rfl

/-- The errors about a lexeme are about its token where that is invalid. -/
lemma errorSpans_token {token : Token} {offset : Nat} (c : Char) (cs : List Char)
    (hkind : token.kind = (ofChars c cs).kind)
    (hspan : token.span = (spanOf (ofChars c cs).text).shift offset) :
    errorSpans ((ofChars c cs).diagnostics.map (·.shift offset)) = Token.invalidSpans [token] := by
  rw [errorSpans_shift, errorSpans_ofChars, Token.invalidSpans_singleton, hkind, hspan]
  split <;> rfl

/-- Only strings in quotes are warned about. -/
lemma quoted_of_warning {c : Char} {d : Diagnostic} (hd : d ∈ (ofChars c cs).diagnostics)
    (hwarning : d.severity = .warning) :
    (c = '"' ∨ c = '\'') ∧ ((ofChars c cs).kind = .string ∨ (ofChars c cs).kind = .invalid) := by
  rcases ofChars_cases c cs with ⟨hquote, heq⟩ | ⟨-, -, hnone⟩ | ⟨-, message, hone⟩
  · rw [heq]
    exact ⟨hquote, (Quoted.scan_errors c (c :: cs)).imp And.left And.left⟩
  · rw [hnone] at hd
    cases hd
  · rw [hone, List.mem_singleton] at hd
    rw [hd] at hwarning
    cases hwarning

end Lexeme

/-! ### Gaps -/

lemma LongBracket.opening_append_inj {level level' : Nat} {ds : List Char}
    (h : opening level ++ cs = opening level' ++ ds) : level = level' ∧ cs = ds := by
  have hlevel : some level = some level' := by
    rw [← level?_opening level cs, h, level?_opening]
  obtain rfl := Option.some.inj hlevel
  exact ⟨rfl, List.append_cancel_left h⟩

lemma Gap.comment_unfinished (cs : List Char) (span : Span) :
    ¬ Trivia.Unfinished ⟨(comment cs).kind, String.ofList (comment cs).text, span⟩
        ∧ (comment cs).diagnostics = []
      ∨ Trivia.Unfinished ⟨(comment cs).kind, String.ofList (comment cs).text, span⟩
        ∧ (comment cs).rest = []
        ∧ ∃ message, (comment cs).diagnostics
          = [.error (Lexeme.spanOf (comment cs).text) message []] := by
  cases hlevel : level? cs with
  | none =>
    simp [comment, hlevel, Trivia.Unfinished]
  | some level =>
    obtain ⟨text, rfl⟩ := exists_opening hlevel
    rw [comment_opening]
    have htakes := body_takes level text
    generalize body level text = b at htakes ⊢
    cases htakes with
    | closed front back hfirst =>
      refine .inl ⟨?_, rfl⟩
      rintro ⟨-, level', inner, htext, hnot⟩
      have hboth : opening level ++ (front ++ closing level) = opening level' ++ inner := by
        simpa using htext
      obtain ⟨rfl, rfl⟩ := opening_append_inj hboth
      exact hnot (List.suffix_append front (closing level)).isInfix
    | unfinished hnot =>
      exact .inr ⟨⟨rfl, level, text, String.toList_ofList, hnot⟩, rfl, _, rfl⟩

/-- A piece is an unfinished comment that the text ends with, or nothing is reported about it. -/
lemma Gap.piece?_unfinished {p : Piece} (h : piece? cs = some p) (span : Span) :
    ¬ Trivia.Unfinished ⟨p.kind, String.ofList p.text, span⟩ ∧ p.diagnostics = []
      ∨ Trivia.Unfinished ⟨p.kind, String.ofList p.text, span⟩ ∧ p.rest = []
        ∧ ∃ message, p.diagnostics = [.error (Lexeme.spanOf p.text) message []] := by
  unfold piece? at h
  split at h
  · cases h
  split at h
  · cases h
    exact .inl ⟨by simp [Trivia.Unfinished], rfl⟩
  split at h
  · cases h
    exact comment_unfinished _ span
  · cases h

/-- Of the comments in a gap the last one may be unfinished; the errors are about that one. -/
lemma Gap.ofChars_errors (offset : Offset) (cs : List Char) :
    ∃ front, ∃ last : Option Trivia, (ofChars offset cs).trivia = front ++ last.toList
      ∧ (∀ p ∈ front, ¬ p.Unfinished)
      ∧ (∀ p ∈ last, p.Unfinished ∧ p.span.stop = offset + byteSize cs
        ∧ (ofChars offset cs).rest = [])
      ∧ (∀ d ∈ (ofChars offset cs).diagnostics, d.severity = .error)
      ∧ errorSpans (ofChars offset cs).diagnostics = last.toList.map (·.span) := by
  fun_induction ofChars offset cs with
  | case1 => exact ⟨[], none, rfl, by simp, by simp, by simp, rfl⟩
  | case2 offset cs piece hpiece stop inner ih =>
    have hsize : stop + byteSize piece.rest = offset + byteSize cs := by
      rw [← piece?_append hpiece, byteSize_append, ← Nat.add_assoc]
    rcases piece?_unfinished hpiece ⟨offset, stop⟩ with
      ⟨hsound, hnone⟩ | ⟨hopen, hrest, message, hone⟩
    · obtain ⟨front, last, htrivia, hfront, hlast, hseverity, hspans⟩ := ih
      rw [hsize] at hlast
      refine ⟨_ :: front, last, ?_, List.forall_mem_cons.2 ⟨hsound, hfront⟩, hlast, ?_, ?_⟩
      · rw [List.cons_append, ← htrivia]
      · rw [hnone, List.map_nil, List.nil_append]
        exact hseverity
      · rw [hnone, List.map_nil, List.nil_append]
        exact hspans
    · have hinner : inner = ⟨[], stop, [], []⟩ := by
        simp only [inner, hrest]
        exact ofChars_of_none rfl
      rw [hrest, byteSize, Nat.add_zero] at hsize
      refine ⟨[], some ⟨piece.kind, String.ofList piece.text, ⟨offset, stop⟩⟩, ?_,
        List.forall_mem_nil _, ?_, ?_, ?_⟩
      · rw [hinner]
        rfl
      · rintro p hp
        obtain rfl := Option.some.inj hp
        exact ⟨hopen, hsize, by rw [hinner]⟩
      · rw [hone, hinner]
        simp [Diagnostic.shift, Diagnostic.error]
      · rw [hone, hinner]
        simp [errorSpans, Diagnostic.shift, Diagnostic.error, Lexeme.spanOf, Span.shift, stop,
          Nat.add_comm]

/-! ### Texts -/

namespace Scanned

/-- The errors are about the invalid tokens in their order and then about the comment that is not
finished, which is the last one of all. -/
lemma ofChars_errors (offset : Offset) (cs : List Char) :
    ∃ front, ∃ last : Option Trivia,
      (ofChars offset cs).flatMap (·.token.trivia) = front ++ last.toList
      ∧ (∀ p ∈ front, ¬ p.Unfinished)
      ∧ (∀ p ∈ last, p.Unfinished ∧ p.span.stop = offset + byteSize cs)
      ∧ errorSpans ((ofChars offset cs).flatMap (·.diagnostics))
        = Token.invalidSpans ((ofChars offset cs).map (·.token)) ++ last.toList.map (·.span)
      ∧ (errorSpans ((ofChars offset cs).flatMap (·.diagnostics))).Pairwise (·.stop ≤ ·.start) := by
  fun_induction ofChars offset cs with
  | case1 offset cs gap hrest =>
    obtain ⟨front, last, htrivia, hfront, hlast, -, hspans⟩ := Gap.ofChars_errors offset cs
    refine ⟨front, last, ?_, hfront, fun p hp => ⟨(hlast p hp).1, (hlast p hp).2.1⟩, ?_, ?_⟩
    · rw [List.flatMap_singleton]
      exact htrivia
    · rw [List.flatMap_singleton]
      exact hspans
    · rw [List.flatMap_singleton, show errorSpans gap.diagnostics = _ from hspans]
      cases last <;> simp
  | case2 offset cs gap c rest hrest _ _ lexeme stop token ih =>
    obtain ⟨front, last, htrivia, hfront, hlast, -, hspans⟩ := Gap.ofChars_errors offset cs
    obtain rfl : last = none := by
      -- The text goes on behind the gap.
      refine Option.eq_none_iff_forall_not_mem.2 fun p hp => ?_
      have hnil := (hlast p hp).2.2
      rw [show (Gap.ofChars offset cs).rest = c :: rest from hrest] at hnil
      cases hnil
    obtain ⟨front', last', htrivia', hfront', hlast', hspans', happart⟩ := ih
    have hsize : stop + byteSize lexeme.rest = offset + byteSize cs := by
      rw [← Gap.ofChars_stop offset cs, hrest, ← Lexeme.ofChars_append c rest, byteSize_append,
        ← Nat.add_assoc]
    rw [hsize] at hlast'
    have hown : errorSpans (gap.diagnostics ++ lexeme.diagnostics.map (·.shift gap.stop))
        = Token.invalidSpans [token] := by
      rw [errorSpans_append, show errorSpans gap.diagnostics = [] from hspans, List.nil_append]
      refine Lexeme.errorSpans_token c rest rfl ?_
      simp [token, Lexeme.spanOf, Span.shift, stop, lexeme, Nat.add_comm]
    refine ⟨front ++ front', last', ?_, ?_, hlast', ?_, ?_⟩
    · rw [List.flatMap_cons, htrivia', List.append_assoc, ← List.append_nil front]
      exact congrArg (· ++ _) htrivia
    · exact List.forall_mem_append.2 ⟨hfront, hfront'⟩
    · rw [List.flatMap_cons, errorSpans_append, hown, hspans', List.map_cons, ← List.append_assoc,
        ← Token.invalidSpans_cons]
    · rw [List.flatMap_cons, errorSpans_append, hown, List.pairwise_append]
      refine ⟨?_, happart, fun s hs u hu => ?_⟩
      · rw [Token.invalidSpans_singleton]
        split <;> simp
      · have hstop : s.stop = stop := by
          rw [Token.invalidSpans_singleton, List.mem_ite_nil_right, List.mem_singleton] at hs
          rw [hs.2]
        obtain ⟨d, hd, rfl⟩ := List.mem_map.1 hu
        rw [hstop]
        exact (flatMap_about stop lexeme.rest d (List.mem_filter.1 hd).1).bounds.1

/-- What is only warned about lies in a string in quotes. -/
lemma warnings_quoted (offset : Offset) (cs : List Char) :
    ∀ x ∈ ofChars offset cs, ∀ d ∈ x.diagnostics, d.severity = .warning →
      x.token.span.encloses d.span = true
        ∧ (x.token.kind = .string ∨ x.token.kind = .invalid)
        ∧ ∃ quote, (quote = '"' ∨ quote = '\'') ∧ x.token.text.toList.head? = some quote := by
  have hgap : ∀ offset cs, ∀ d ∈ (Gap.ofChars offset cs).diagnostics, d.severity ≠ .warning := by
    intro offset cs d hd
    obtain ⟨-, -, -, -, -, hseverity, -⟩ := Gap.ofChars_errors offset cs
    rw [hseverity d hd]
    decide
  fun_induction ofChars offset cs with
  | case1 offset cs gap hrest =>
    rw [List.forall_mem_singleton]
    exact fun d hd hwarning => absurd hwarning (hgap offset cs d hd)
  | case2 offset cs gap c rest hrest _ _ lexeme stop token ih =>
    refine List.forall_mem_cons.2 ⟨fun d hd hwarning => ?_, ih⟩
    rcases List.mem_append.1 hd with hd | hd
    · exact absurd hwarning (hgap offset cs d hd)
    · obtain ⟨hstart, -, hstop⟩ := (Lexeme.shifted_about gap.stop c rest d hd).bounds
      obtain ⟨e, he, rfl⟩ := List.mem_map.1 hd
      obtain ⟨hquote, hkind⟩ := Lexeme.quoted_of_warning he hwarning
      refine ⟨?_, hkind, c, hquote, ?_⟩
      · rw [Span.encloses, Bool.and_eq_true, decide_eq_true_eq, decide_eq_true_eq]
        exact ⟨hstart, hstop⟩
      · rw [String.toList_ofList, Lexeme.head_ofChars]

end Scanned

/-- **The errors of a text are its invalid tokens**, and after them a block comment that is not
closed, with which the text ends. They do not overlap, and what is only warned about lies in a
string in quotes. -/
theorem Lexed.errors_paired (source : String) :
    ∃ front, ∃ last : Option Trivia,
      (ofSource source).tokens.flatMap (·.trivia) = front ++ last.toList
      ∧ (∀ p ∈ front, ¬ p.Unfinished)
      ∧ (∀ p ∈ last, p.Unfinished ∧ p.span.stop = byteSize source.toList)
      ∧ errorSpans (ofSource source).diagnostics
        = Token.invalidSpans (ofSource source).tokens ++ last.toList.map (·.span)
      ∧ (errorSpans (ofSource source).diagnostics).Pairwise (·.stop ≤ ·.start)
      ∧ ∀ d ∈ (ofSource source).diagnostics, d.severity = .warning →
        ∃ t ∈ (ofSource source).tokens, t.span.encloses d.span = true
          ∧ (t.kind = .string ∨ t.kind = .invalid)
          ∧ ∃ quote, (quote = '"' ∨ quote = '\'') ∧ t.text.toList.head? = some quote := by
  obtain ⟨front, last, htrivia, hfront, hlast, hspans, happart⟩ :=
    Scanned.ofChars_errors 0 source.toList
  refine ⟨front, last, ?_, hfront, ?_, hspans, happart, fun d hd hwarning => ?_⟩
  · rw [← htrivia, ofSource, List.flatMap_map]
  · rwa [Nat.zero_add] at hlast
  · obtain ⟨x, hx, hd⟩ := List.mem_flatMap.1 hd
    exact ⟨x.token, List.mem_map_of_mem hx,
      Scanned.warnings_quoted 0 source.toList x hx d hd hwarning⟩

end LuaFront
