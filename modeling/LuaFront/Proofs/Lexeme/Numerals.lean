import LuaFront.Proofs.Lexeme.Brackets
import Mathlib.Data.List.TakeWhile
import Mathlib.Tactic.SplitIfs

/-!
Numerals as the manual writes them: digits with an optional fraction and an optional exponent, in
base ten, or in base sixteen after a zero and an `x`. What the lexer takes for a number is such a
numeral; and a numeral that nothing runs on from is taken for a number as a whole.
-/

namespace LuaFront

open Text

namespace Numeral

def Digits (base : Base) (cs : List Char) : Prop := ∀ c ∈ cs, base.isDigit c = true

instance (base : Base) (cs : List Char) : Decidable (Digits base cs) :=
  decidable_of_iff (cs.all base.isDigit = true) List.all_eq_true

inductive Lead : Base → List Char → Prop
  | decimal : Lead .decimal []
  | hex (x : Char) : x = 'x' ∨ x = 'X' → Lead .hex ['0', x]

inductive Fraction (base : Base) : List Char → Prop
  | none : Fraction base []
  | point (digits : List Char) : Digits base digits → Fraction base ('.' :: digits)

inductive Sign : List Char → Prop
  | none : Sign []
  | plus : Sign ['+']
  | minus : Sign ['-']

/-- Exponents are written in base ten. -/
inductive Exponent (base : Base) : List Char → Prop
  | none : Exponent base []
  | mark (c : Char) (sign digits : List Char) : base.isMark c = true → Sign sign → digits ≠ [] →
    Digits .decimal digits → Exponent base (c :: sign ++ digits)

/-- The numerals of the language. -/
inductive Spelled : List Char → Prop
  | mk {base : Base} {lead whole fraction exponent : List Char} (hlead : Lead base lead)
    (hwhole : Digits base whole) (hfraction : Fraction base fraction)
    (hmantissa : ∃ c ∈ whole ++ fraction, base.isDigit c = true)
    (hexponent : Exponent base exponent) : Spelled (lead ++ whole ++ fraction ++ exponent)

variable {base : Base} {cs rest : List Char}

/-! ### What is taken for a number is a numeral -/

lemma splitBase_lead (cs : List Char) : Lead (splitBase cs).1 (splitBase cs).2.1 := by
  unfold splitBase
  split
  · exact .hex 'x' (.inl rfl)
  · exact .hex 'X' (.inr rfl)
  · exact .decimal

lemma takeWhile_digits (base : Base) (cs : List Char) : Digits base (cs.takeWhile base.isDigit) :=
  List.all_eq_true.1 List.all_takeWhile

lemma splitFraction_fraction (base : Base) (cs : List Char) :
    Fraction base (splitFraction base cs).1 := by
  unfold splitFraction
  split
  · exact .point _ (takeWhile_digits base _)
  · exact .none

lemma splitSign_sign (cs : List Char) : Sign (splitSign cs).1 := by
  unfold splitSign
  split
  · exact .plus
  · exact .minus
  · exact .none

lemma not_isDigit_of_isMark {c : Char} (h : base.isMark c = true) :
    base.isDigit c = false ∧ c.isDigit = false ∧ c ≠ '.' ∧ isTail c = true := by
  cases base <;> rcases (by simpa [Base.isMark] using h) with rfl | rfl <;> decide

lemma Sign.not_isDigit {sign : List Char} (h : Sign sign) : ∀ c ∈ sign, c.isDigit = false := by
  cases h with
  | none => exact List.forall_mem_nil _
  | plus | minus => exact List.forall_mem_singleton.2 rfl

lemma splitExponent_exponent (base : Base) (cs : List Char)
    (h : (splitExponent base cs).1.isEmpty || (splitExponent base cs).1.any Char.isDigit) :
    Exponent base (splitExponent base cs).1 := by
  unfold splitExponent at h ⊢
  split at h
  · exact .none
  · next c cs =>
    split at h
    · next hmark =>
      rw [if_pos hmark]
      dsimp only at h ⊢
      have hsign := splitSign_sign cs
      refine .mark c _ _ hmark hsign (fun hnil => ?_) (takeWhile_digits .decimal _)
      rw [hnil, List.append_nil, List.isEmpty_cons, Bool.false_or, List.any_eq_true] at h
      obtain ⟨d, hd, hdigit⟩ := h
      rcases List.mem_cons.1 hd with rfl | hd
      · rw [(not_isDigit_of_isMark hmark).2.1] at hdigit
        cases hdigit
      · rw [hsign.not_isDigit d hd] at hdigit
        cases hdigit
    · next hmark =>
      rw [if_neg hmark]
      exact .none

/-- A number is a numeral. -/
lemma spelled_of_scan (h : (scan cs).kind = .number) : Spelled (scan cs).text := by
  unfold scan at h ⊢
  dsimp only at h ⊢
  split at h
  · next hwell =>
    rw [if_pos hwell]
    rw [Bool.and_eq_true, Bool.and_eq_true, List.any_eq_true] at hwell
    obtain ⟨⟨hmantissa, hexponent⟩, htail⟩ := hwell
    rw [Lexeme.plain, List.isEmpty_iff.1 htail, List.append_nil]
    exact .mk (splitBase_lead cs) (takeWhile_digits _ _) (splitFraction_fraction _ _) hmantissa
      (splitExponent_exponent _ _ hexponent)
  · cases h

/-! ### A numeral is taken for a number -/

/-- Nothing of a kind is at the front of a text. -/
def Stops (p : Char → Bool) (rest : List Char) : Prop := rest.head?.any p = false

instance (p : Char → Bool) (rest : List Char) : Decidable (Stops p rest) :=
  inferInstanceAs (Decidable (rest.head?.any p = false))

lemma Stops.head {p : Char → Bool} {c : Char} (h : Stops p rest) (hc : rest.head? = some c) :
    p c = false := by
  rwa [Stops, hc] at h

lemma takeWhile_stops {p : Char → Bool} (hcs : ∀ c ∈ cs, p c = true) (hrest : Stops p rest) :
    (cs ++ rest).takeWhile p = cs ∧ (cs ++ rest).dropWhile p = rest := by
  rw [List.takeWhile_append_of_pos hcs, List.dropWhile_append_of_pos hcs]
  cases rest with
  | nil => exact ⟨List.append_nil cs, rfl⟩
  | cons c rest =>
    have hc := hrest.head rfl
    simp [hc]

lemma isTail_of_isDigit {c : Char} (h : base.isDigit c = true) : isTail c = true := by
  have hdigit : c.isDigit = true ∨ 'a' ≤ c ∧ c ≤ 'f' ∨ 'A' ≤ c ∧ c ≤ 'F' := by
    cases base with
    | decimal => exact .inl h
    | hex => simpa [Base.isDigit, isHexDigit, or_assoc] using h
  have hword : c.isAlphanum = true := by
    unfold Char.isAlphanum Char.isAlpha Char.isUpper Char.isLower
    simp only [Bool.or_eq_true, Bool.and_eq_true, decide_eq_true_eq]
    rcases hdigit with h | ⟨hlow, hhigh⟩ | ⟨hlow, hhigh⟩
    · exact .inr h
    · exact .inl (.inr ⟨hlow, UInt32.le_trans hhigh (by decide)⟩)
    · exact .inl (.inl ⟨hlow, UInt32.le_trans hhigh (by decide)⟩)
  simp [isTail, Word.isInner, hword]

lemma Stops.mono {p q : Char → Bool} (h : Stops q rest) (hp : ∀ c, p c = true → q c = true) :
    Stops p rest := by
  cases rest with
  | nil => rfl
  | cons c rest =>
    have hq : q c = false := h.head rfl
    change p c = false
    rw [← Bool.not_eq_true]
    intro hpc
    rw [hp c hpc] at hq
    cases hq

variable {lead whole fraction sign exponent : List Char}

lemma splitSign_digits {digits : List Char} (hsign : Sign sign) (hne : digits ≠ [])
    (hdigits : Digits .decimal digits) (rest : List Char) :
    splitSign (sign ++ (digits ++ rest)) = (sign, digits ++ rest) := by
  cases hsign with
  | plus => rfl
  | minus => rfl
  | none =>
    obtain ⟨d, digits, rfl⟩ := List.exists_cons_of_ne_nil hne
    have hd : d.isDigit = true := hdigits d List.mem_cons_self
    refine splitSign.eq_3 _ (fun cs h => ?_) (fun cs h => ?_) <;>
      · rw [(List.cons.inj h).1] at hd
        cases hd

lemma splitExponent_stops (hexponent : Exponent base exponent) (hrest : Stops isTail rest) :
    splitExponent base (exponent ++ rest) = (exponent, rest) := by
  have hdigit : Stops Base.decimal.isDigit rest := hrest.mono fun _ hc => isTail_of_isDigit hc
  cases hexponent with
  | none =>
    cases rest with
    | nil => rfl
    | cons c rest =>
      have hmark : Stops base.isMark (c :: rest) :=
        hrest.mono fun c hc => (not_isDigit_of_isMark hc).2.2.2
      rw [List.nil_append, splitExponent, hmark.head rfl]
      rfl
  | mark c sign digits hmark hsign hne hdigits =>
    obtain ⟨htake, hdrop⟩ := takeWhile_stops (p := Char.isDigit) hdigits hdigit
    rw [List.cons_append, List.cons_append, List.append_assoc, splitExponent, if_pos hmark,
      splitSign_digits hsign hne hdigits]
    simp only [htake, hdrop, List.cons_append]

/-- An exponent or what comes after the numeral is no part of its digits. -/
lemma exponent_stops (hexponent : Exponent base exponent) (hrest : Stops isTail rest) :
    Stops base.isDigit (exponent ++ rest) ∧ (exponent ++ rest).head? ≠ some '.' := by
  cases hexponent with
  | none =>
    refine ⟨hrest.mono fun c hc => isTail_of_isDigit hc, fun hhead => ?_⟩
    cases hrest.head hhead
  | mark c sign digits hmark =>
    obtain ⟨hdigit, -, hpoint, -⟩ := not_isDigit_of_isMark hmark
    exact ⟨hdigit, fun hhead => hpoint (Option.some.inj hhead)⟩

lemma splitFraction_stops (hfraction : Fraction base fraction) (hrest : Stops base.isDigit rest)
    (hpoint : rest.head? ≠ some '.') :
    splitFraction base (fraction ++ rest) = (fraction, rest) := by
  cases hfraction with
  | none =>
    refine splitFraction.eq_2 _ _ fun cs h => hpoint ?_
    rw [← List.nil_append rest, h]
    rfl
  | point digits hdigits =>
    obtain ⟨htake, hdrop⟩ := takeWhile_stops hdigits hrest
    rw [List.cons_append, splitFraction, htake, hdrop]

lemma fraction_stops (hfraction : Fraction base fraction) (hrest : Stops base.isDigit rest) :
    Stops base.isDigit (fraction ++ rest) := by
  cases hfraction with
  | none => exact hrest
  | point digits hdigits => cases base <;> rfl

/-- A numeral in base ten has no `x` in it. -/
lemma not_mem_spelled {x : Char} (hx : x = 'x' ∨ x = 'X') (hwhole : Digits .decimal whole)
    (hfraction : Fraction .decimal fraction) (hexponent : Exponent .decimal exponent) :
    x ∉ whole ++ (fraction ++ exponent) := by
  have hdigits : ∀ digits, Digits .decimal digits → x ∉ digits := by
    intro digits h hmem
    have hdigit := h x hmem
    rcases hx with rfl | rfl <;> cases hdigit
  simp only [List.mem_append, not_or]
  refine ⟨hdigits _ hwhole, ?_, ?_⟩
  · cases hfraction with
    | none => exact List.not_mem_nil
    | point digits h =>
      have hpoint : x ≠ '.' := by rcases hx with rfl | rfl <;> decide
      simp [hpoint, hdigits _ h]
  · cases hexponent with
    | none => exact List.not_mem_nil
    | mark c sign digits hmark hsign _ h =>
      have hsigned : x ∉ sign := by
        cases hsign <;> rcases hx with rfl | rfl <;> decide
      have hc : x ≠ c := by
        rintro rfl
        rcases hx with rfl | rfl <;> cases hmark
      simp [hc, hsigned, hdigits _ h]

lemma splitBase_spelled (hlead : Lead base lead) (hwhole : Digits base whole)
    (hfraction : Fraction base fraction)
    (hmantissa : ∃ c ∈ whole ++ fraction, base.isDigit c = true)
    (hexponent : Exponent base exponent) (hrest : Stops isTail rest) :
    splitBase (lead ++ (whole ++ (fraction ++ exponent) ++ rest))
      = (base, lead, whole ++ (fraction ++ exponent) ++ rest) := by
  cases hlead with
  | hex x hx => rcases hx with rfl | rfl <;> rfl
  | decimal =>
    have hne : whole ++ (fraction ++ exponent) ≠ [] := by
      obtain ⟨c, hc, -⟩ := hmantissa
      rw [← List.append_assoc]
      exact List.append_ne_nil_of_left_ne_nil (List.ne_nil_of_mem hc) _
    have hsecond : ∀ x cs, x = 'x' ∨ x = 'X' →
        whole ++ (fraction ++ exponent) ++ rest ≠ '0' :: x :: cs := by
      intro x cs hx h
      have hmem := not_mem_spelled hx hwhole hfraction hexponent
      -- The second character is of the numeral, or the first one after it.
      generalize whole ++ (fraction ++ exponent) = text at hne hmem h
      match text with
      | [c] =>
        have hrest_eq : rest = x :: cs := (List.cons.inj h).2
        have hstop := hrest.head (by rw [hrest_eq]; rfl)
        rcases hx with rfl | rfl <;> cases hstop
      | c :: d :: text =>
        obtain rfl : d = x := (List.cons.inj (List.cons.inj h).2).1
        exact hmem (by simp)
    exact splitBase.eq_3 _ (fun cs => hsecond 'x' cs (.inl rfl))
      (fun cs => hsecond 'X' cs (.inr rfl))

lemma Exponent.written (h : Exponent base exponent) :
    (exponent.isEmpty || exponent.any Char.isDigit) = true := by
  cases h with
  | none => rfl
  | mark c sign digits _ _ hne hdigits =>
    obtain ⟨d, digits, rfl⟩ := List.exists_cons_of_ne_nil hne
    have hd : d.isDigit = true := hdigits d List.mem_cons_self
    simp [hd]

lemma scan_spelled {text : List Char} (h : Spelled text) (hrest : Stops isTail rest) :
    scan (text ++ rest) = .plain .number text rest := by
  obtain @⟨base, lead, whole, fraction, exponent, hlead, hwhole, hfraction, hmantissa,
    hexponent⟩ := h
  obtain ⟨hdigit, hpoint⟩ := exponent_stops hexponent hrest
  obtain ⟨htake, hdrop⟩ := takeWhile_stops hwhole (fraction_stops hfraction hdigit)
  obtain ⟨htail, hafter⟩ := takeWhile_stops (List.forall_mem_nil _) hrest
  rw [List.nil_append] at htail hafter
  have hbase := splitBase_spelled hlead hwhole hfraction hmantissa hexponent hrest
  simp only [List.append_assoc] at hbase
  have hany : (whole ++ fraction).any base.isDigit = true := List.any_eq_true.2 hmantissa
  simp only [List.append_assoc, scan, hbase, htake, hdrop,
    splitFraction_stops hfraction hdigit hpoint, splitExponent_stops hexponent hrest,
    hany, hexponent.written, htail, hafter]
  simp

/-- A numeral begins like one. -/
lemma Spelled.head {text : List Char} (h : Spelled text) :
    ∃ c cs, text = c :: cs ∧ (c.isDigit || c = '.' && cs.head?.any Char.isDigit) = true := by
  obtain @⟨base, lead, whole, fraction, exponent, hlead, hwhole, hfraction, hmantissa, -⟩ := h
  cases hlead with
  | hex x hx => exact ⟨'0', _, rfl, rfl⟩
  | decimal =>
    cases whole with
    | cons d whole =>
      have hd : d.isDigit = true := hwhole d List.mem_cons_self
      exact ⟨d, _, rfl, by simp [hd]⟩
    | nil =>
      obtain ⟨c, hc, hdigit⟩ := hmantissa
      cases hfraction with
      | none => cases hc
      | point digits hdigits =>
        cases digits with
        | nil =>
          obtain rfl : c = '.' := by simpa using hc
          cases hdigit
        | cons d digits =>
          have hd : d.isDigit = true := hdigits d List.mem_cons_self
          exact ⟨'.', _, rfl, by simp [hd]⟩

end Numeral

namespace Lexeme

lemma ofChars_of_number {c : Char} {cs : List Char} (h : (ofChars c cs).kind = .number) :
    ofChars c cs = Numeral.scan (c :: cs) := by
  unfold ofChars at h ⊢
  split_ifs at h ⊢ with hquote hbracket hdigit hword
  · unfold Quoted.scan at h
    dsimp only at h
    split at h <;> cases h
  · unfold LongBracket.scan at h
    dsimp only at h
    repeat' split at h
    all_goals cases h
  · rfl
  · unfold Word.scan Word.kindOf at h
    dsimp only [plain] at h
    split at h <;> cases h
  · unfold symbol at h
    split at h <;> cases h

/-- A numeral in front of something else is one lexeme, and nothing of it goes to a gap. -/
lemma ofChars_spelled {c : Char} {cs rest : List Char} (h : Numeral.Spelled (c :: cs))
    (hrest : Numeral.Stops Numeral.isTail rest) :
    ofChars c (cs ++ rest) = .plain .number (c :: cs) rest
      ∧ Gap.piece? (c :: (cs ++ rest)) = none := by
  obtain ⟨c', cs', hcons, hhead⟩ := h.head
  obtain ⟨rfl, rfl⟩ := List.cons.inj hcons
  have hfirst : c.isDigit = true ∨ c = '.' := by
    rw [Bool.or_eq_true, Bool.and_eq_true, decide_eq_true_eq] at hhead
    exact hhead.imp_right And.left
  have hhead' : (c.isDigit || c = '.' && (cs ++ rest).head?.any Char.isDigit) = true := by
    cases cs with
    | cons d cs => exact hhead
    | nil =>
      rw [List.head?_nil, Option.any_none, Bool.and_false, Bool.or_false] at hhead
      simp [hhead]
  have hne : ∀ d : Char, d.isDigit = false → d ≠ '.' → c ≠ d := by
    rintro d hdigit hpoint rfl
    rcases hfirst with h | h
    · rw [h] at hdigit
      cases hdigit
    · exact hpoint h
  have hspace : isSpace c = false := by
    simp [isSpace, hne ' ' rfl (by decide), hne '\t' rfl (by decide), hne '\n' rfl (by decide),
      hne '\x0b' rfl (by decide), hne '\x0c' rfl (by decide), hne '\r' rfl (by decide)]
  refine ⟨?_, Gap.piece?_eq_none_iff.2 ⟨hspace, fun hdash => hne '-' rfl (by decide) hdash.1⟩⟩
  have hscan := Numeral.scan_spelled h hrest
  rw [List.cons_append] at hscan
  rw [ofChars, if_neg, if_neg, if_pos hhead', hscan]
  · simp [hne '[' rfl (by decide)]
  · simp [hne '"' rfl (by decide), hne '\'' rfl (by decide)]

end Lexeme

namespace Lexed

open Numeral

/-- **The numbers of a text are its numerals**: what the lexer takes for a number is a numeral, and
wherever it begins with a numeral that no letter, digit, underscore or dot comes after, it takes
that, and reports nothing about it. -/
theorem numbers_spelled :
    (∀ source, ∀ t ∈ (ofSource source).tokens, t.kind = .number → Spelled t.text.toList)
    ∧ (∀ offset text rest, Spelled text → Stops isTail rest →
      Scanned.ofChars offset (text ++ rest)
        = ⟨⟨.number, String.ofList text, ⟨offset, offset + byteSize text⟩, []⟩, []⟩
          :: Scanned.ofChars (offset + byteSize text) rest)
    ∧ ∀ source front text rest, source.toList = front ++ text ++ rest → Spelled text →
      Stops isTail rest → ∀ t ∈ (ofSource source).tokens, t.span.start = byteSize front →
      t.kind = .number ∧ t.text = String.ofList text
        ∧ t.span = ⟨byteSize front, byteSize (front ++ text)⟩
        ∧ (ofSource source).diagnostics.filter (t.span.encloses ·.span) = [] := by
  refine ⟨fun source t ht hkind => ?_, fun offset text rest h hrest => ?_,
    fun source front text rest hsource h hrest t ht hstart => ?_⟩
  · obtain ⟨x, hx, rfl⟩ := List.mem_map.1 ht
    obtain ⟨front, c, cs, hread⟩ :=
      Scanned.exists_reading 0 source.toList x hx (by rw [hkind]; decide)
    have hscan := Lexeme.ofChars_of_number (hread.kind.symm.trans hkind)
    have hnumber := hread.kind.symm.trans hkind
    rw [hscan] at hnumber
    rw [hread.text, String.toList_ofList, hscan]
    exact spelled_of_scan hnumber
  · obtain ⟨c, cs, rfl, -⟩ := h.head
    obtain ⟨hlexeme, hgap⟩ := Lexeme.ofChars_spelled h hrest
    have hopen : Gap.ofChars offset (c :: (cs ++ rest)) = ⟨[], offset, c :: (cs ++ rest), []⟩ :=
      Gap.ofChars_of_none hgap
    rw [List.cons_append, Scanned.ofChars_of_cons (by rw [hopen]), hopen, hlexeme]
    rfl
  · obtain ⟨c, cs, rfl, -⟩ := h.head
    obtain ⟨hlexeme, -⟩ := Lexeme.ofChars_spelled h hrest
    rw [List.append_assoc, List.cons_append] at hsource
    have hkind : t.kind ≠ .eof := by
      intro heof
      have hsize : byteSize front = byteSize source.toList :=
        hstart.symm.trans (congrArg Span.start (span_eof ht heof))
      have hpos : 0 < byteSize (c :: (cs ++ rest)) := byteSize_pos (List.cons_ne_nil _ _)
      rw [hsource, byteSize_append] at hsize
      omega
    obtain ⟨x, hx, rfl⟩ := List.mem_map.1 ht
    obtain ⟨front', c', cs', hread⟩ := Scanned.exists_reading 0 source.toList x hx hkind
    have hboth := hsource.symm.trans hread.text_eq
    obtain rfl := front_eq hboth (hstart.symm.trans (hread.start.trans (Nat.zero_add _)))
    obtain ⟨rfl, rfl⟩ := List.cons.inj (List.append_cancel_left hboth)
    have hstop := hread.stop
    have hreports := hread.reports
    rw [hlexeme] at hstop hreports
    rw [hstart] at hstop
    have hspan : x.token.span = ⟨byteSize front, byteSize (front ++ c :: cs)⟩ := by
      rw [byteSize_append, ← hstart]
      exact congrArg (Span.mk x.token.span.start) (hstart ▸ hstop)
    exact ⟨by rw [hread.kind, hlexeme]; rfl, by rw [hread.text, hlexeme]; rfl, hspan, hreports⟩

/-- An exponent in base sixteen, and a dot that no digit comes after. -/
theorem numbers_spelled_hex :
    (⟨.number, "5.", ⟨9, 11⟩, []⟩ ∈ (ofSource "x=0xAp-1+5.").tokens ∧ Spelled "5.".toList)
      ∧ Scanned.ofChars 2 "0xAp-1+5.".toList
        = ⟨⟨.number, "0xAp-1", ⟨2, 8⟩, []⟩, []⟩ :: Scanned.ofChars 8 "+5.".toList
      ∧ (ofSource "x=0xAp-1+5.").diagnostics.filter ((⟨2, 8⟩ : Span).encloses ·.span) = [] := by
  have hlast : ⟨.number, "5.", ⟨9, 11⟩, []⟩ ∈ (ofSource "x=0xAp-1+5.").tokens := by decide +kernel
  have hfirst : ⟨.number, "0xAp-1", ⟨2, 8⟩, []⟩ ∈ (ofSource "x=0xAp-1+5.").tokens := by
    decide +kernel
  have hspelled : Spelled "0xAp-1".toList :=
    @Spelled.mk .hex ['0', 'x'] ['A'] [] ['p', '-', '1'] (.hex 'x' (.inl rfl)) (by decide) .none
      ⟨'A', List.mem_cons_self, rfl⟩ (.mark 'p' ['-'] ['1'] rfl .minus (by decide) (by decide))
  have hstops : Stops isTail "+5.".toList := by decide
  exact ⟨⟨hlast, numbers_spelled.1 _ _ hlast rfl⟩, numbers_spelled.2.1 2 _ _ hspelled hstops,
    (numbers_spelled.2.2 _ ['x', '='] "0xAp-1".toList "+5.".toList (by decide) hspelled hstops _
      hfirst (by decide)).2.2.2⟩

end Lexed

end LuaFront
