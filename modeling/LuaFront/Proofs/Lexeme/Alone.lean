import LuaFront.Proofs.Lexeme.Joined
import LuaFront.Proofs.Lexeme.Reports

/-!
A token by itself. What a scan takes off a text it takes again when that is all there is: whatever
it saw of the text behind, the end of the text stops it in the same place and tells it the same.
-/

namespace LuaFront

open Text

variable {cs front back : List Char}

/-! ### What is taken, and some of the text behind it -/

section Fronts

variable {p : Char → Bool}

lemma takeWhile_front (h : (front ++ back).takeWhile p = []) : front.takeWhile p = [] := by
  cases front with
  | nil => rfl
  | cons c front =>
    rw [List.cons_append, List.takeWhile_cons] at h
    split at h
    · cases h
    · next hc => rw [List.takeWhile_cons, if_neg hc]

lemma takeWhile_again (h : cs.dropWhile p = front ++ back) :
    (cs.takeWhile p ++ front).takeWhile p = cs.takeWhile p
      ∧ (cs.takeWhile p ++ front).dropWhile p = front := by
  have htaken : ∀ c ∈ cs.takeWhile p, p c = true := List.all_eq_true.1 List.all_takeWhile
  have hstop : (cs.dropWhile p).takeWhile p = [] := by
    have hwhole : (cs.takeWhile p ++ cs.dropWhile p).takeWhile p = _ :=
      List.takeWhile_append_of_pos htaken
    rw [List.takeWhile_append_dropWhile] at hwhole
    simpa using hwhole.symm
  have hfront : front.takeWhile p = [] := takeWhile_front (h ▸ hstop)
  have hdrop := List.takeWhile_append_dropWhile (p := p) (l := front)
  rw [hfront, List.nil_append] at hdrop
  rw [List.takeWhile_append_of_pos htaken, List.dropWhile_append_of_pos htaken, hfront, hdrop,
    List.append_nil]
  exact ⟨rfl, rfl⟩

/-- Up to `n` characters that fit. -/
lemma takeWhile_take_again {n : Nat}
    (h : cs.drop ((cs.take n).takeWhile p).length = front ++ back) :
    (((cs.take n).takeWhile p ++ front).take n).takeWhile p = (cs.take n).takeWhile p := by
  have htaken : ∀ c ∈ (cs.take n).takeWhile p, p c = true :=
    List.all_eq_true.1 List.all_takeWhile
  have hle : ((cs.take n).takeWhile p).length ≤ n :=
    (List.takeWhile_prefix p).length_le.trans (List.length_take_le n cs)
  have hcs := Quoted.take_takeWhile_append p n cs
  rw [h] at hcs
  generalize hdigits : (cs.take n).takeWhile p = digits at htaken hle hcs ⊢
  have htake : ∀ tail, ((digits ++ tail).take n).takeWhile p
      = digits ++ (tail.take (n - digits.length)).takeWhile p := fun tail => by
    rw [List.take_append, List.take_of_length_le hle, List.takeWhile_append_of_pos htaken]
  -- What is left of the `n` characters does not begin with one that fits.
  have hstop : ((front ++ back).take (n - digits.length)).takeWhile p = [] := by
    rw [← hcs, htake] at hdigits
    simpa using hdigits
  rw [List.take_append] at hstop
  rw [htake, takeWhile_front hstop, List.append_nil]

end Fronts

/-! ### Strings -/

namespace Quoted

lemma lineBreak_again {c second : Char} (h : (lineBreak c second cs).rest = front ++ back) :
    ∃ more, (lineBreak c second cs).text = c :: more
      ∧ lineBreak c second (more ++ front) = { lineBreak c second cs with rest := front } := by
  rcases cs with _ | ⟨d, cs⟩
  · obtain ⟨rfl, -⟩ := List.append_eq_nil_iff.1 h.symm
    exact ⟨[], rfl, rfl⟩
  rw [lineBreak] at h ⊢
  split at h
  · next hd =>
    rw [if_pos hd]
    exact ⟨[d], rfl, if_pos hd⟩
  · next hd =>
    rw [if_neg hd]
    refine ⟨[], rfl, ?_⟩
    cases front with
    | nil => rfl
    | cons e front =>
      obtain ⟨rfl, -⟩ := List.cons.inj h
      exact if_neg hd

lemma byteEscape_again (h : (byteEscape cs).rest = front ++ back) :
    ∃ more, (byteEscape cs).text = 'x' :: more
      ∧ byteEscape (more ++ front) = { byteEscape cs with rest := front } := by
  refine ⟨(cs.take 2).takeWhile Numeral.isHexDigit, rfl, ?_⟩
  rw [byteEscape, takeWhile_take_again h, List.drop_left]
  rfl

lemma decimalEscape_again (h : (decimalEscape cs).rest = front ++ back) :
    decimalEscape ((decimalEscape cs).text ++ front)
      = { decimalEscape cs with rest := front } := by
  have hdigits := takeWhile_take_again h
  simp only [decimalEscape, hdigits, List.drop_left]

lemma scalarEscape_again (h : (scalarEscape cs).rest = front ++ back) :
    ∃ more, (scalarEscape cs).text = 'u' :: more
      ∧ scalarEscape (more ++ front) = { scalarEscape cs with rest := front } := by
  unfold scalarEscape at h
  split at h
  · next cs =>
    dsimp only at h
    split at h
    · next digit digits rest hdigits hrest =>
      -- The closing brace is where the digits stop.
      have hstop : cs.dropWhile Numeral.isHexDigit = '\x7d' :: front ++ back :=
        hrest.trans (congrArg (List.cons _) h)
      obtain ⟨htake, hdrop⟩ := takeWhile_again hstop
      have hopen : '\x7b' :: (cs.takeWhile Numeral.isHexDigit ++ ['\x7d']) ++ front
          = '\x7b' :: (cs.takeWhile Numeral.isHexDigit ++ '\x7d' :: front) := by simp
      refine ⟨'\x7b' :: (cs.takeWhile Numeral.isHexDigit ++ ['\x7d']), ?_, ?_⟩
      · simp only [scalarEscape, hdigits, hrest]
        rfl
      · rw [hopen]
        simp only [scalarEscape, htake, hdrop]
        simp only [hdigits, hrest]
    · next hopen =>
      obtain ⟨htake, hdrop⟩ := takeWhile_again h
      refine ⟨'\x7b' :: cs.takeWhile Numeral.isHexDigit, ?_, ?_⟩
      · rw [scalarEscape]
        split
        · next hdigits hrest => exact absurd hrest (hopen _ _ _ hdigits)
        · rfl
      · simp only [List.cons_append, scalarEscape, htake, hdrop]
        split
        · next rest hdigits =>
          exact absurd h (hopen _ _ (rest ++ back) hdigits)
        · rfl
  · next hother =>
    have hbare : (front ++ back).head? ≠ some '\x7b' := by
      intro hhead
      obtain ⟨tail, htail⟩ := List.head?_eq_some_iff.1 hhead
      exact hother tail (h.trans htail)
    have hfront : front.head? ≠ some '\x7b' := fun hhead =>
      hbare (by rw [List.head?_append, hhead, Option.some_or])
    rw [show cs = front ++ back from h, scalarEscape_bare hbare]
    exact ⟨[], rfl, scalarEscape_bare hfront⟩

/-- An escape takes its characters again if what follows them is cut short. -/
lemma escape_again (h : (escape cs).rest = front ++ back) :
    escape ((escape cs).text ++ front) = { escape cs with rest := front } := by
  cases cs with
  | nil =>
    obtain ⟨rfl, -⟩ := List.append_eq_nil_iff.1 h.symm
    rfl
  | cons c cs =>
    rw [escape] at h ⊢
    split_ifs at h ⊢ with hsimple hfeed hreturn hblanks hbyte hscalar hdigit
    · rw [List.singleton_append, escape, if_pos hsimple]
    · obtain ⟨more, htext, hmore⟩ := lineBreak_again h
      rw [htext, List.cons_append, escape, if_neg hsimple, if_pos hfeed, hmore]
    · obtain ⟨more, htext, hmore⟩ := lineBreak_again h
      rw [htext, List.cons_append, escape, if_neg hsimple, if_neg hfeed, if_pos hreturn, hmore]
    · obtain ⟨htake, hdrop⟩ := takeWhile_again h
      rw [List.cons_append, escape, if_neg hsimple, if_neg hfeed, if_neg hreturn, if_pos hblanks,
        htake, hdrop]
    · obtain ⟨more, htext, hmore⟩ := byteEscape_again h
      rw [htext, ← hbyte, List.cons_append, escape, if_neg hsimple, if_neg hfeed, if_neg hreturn,
        if_neg hblanks, if_pos hbyte, hmore]
    · obtain ⟨more, htext, hmore⟩ := scalarEscape_again h
      rw [htext, ← hscalar, List.cons_append, escape, if_neg hsimple, if_neg hfeed, if_neg hreturn,
        if_neg hblanks, if_neg hbyte, if_pos hscalar, hmore]
    · have hmore := decimalEscape_again h
      obtain ⟨more, htext⟩ : ∃ more, (decimalEscape (c :: cs)).text = c :: more :=
        ⟨_, List.takeWhile_cons_of_pos hdigit⟩
      rw [htext] at hmore ⊢
      rw [List.cons_append, escape, if_neg hsimple, if_neg hfeed, if_neg hreturn, if_neg hblanks,
        if_neg hbyte, if_neg hscalar, if_pos hdigit, ← List.cons_append, hmore]
    · rw [List.singleton_append, escape, if_neg hsimple, if_neg hfeed, if_neg hreturn,
        if_neg hblanks, if_neg hbyte, if_neg hscalar, if_neg hdigit]

/-- So does a string, whether it is closed or not. -/
lemma body_again {quote : Char} {offset : Offset}
    (h : (body quote offset cs).rest = front ++ back) :
    body quote offset ((body quote offset cs).text ++ front)
      = { body quote offset cs with rest := front } := by
  fun_induction body quote offset cs with
  | case1 =>
    obtain ⟨rfl, -⟩ := List.append_eq_nil_iff.1 h.symm
    rw [List.append_nil, body]
  | case2 offset c cs hbreak =>
    cases front with
    | nil => rw [List.append_nil, body]
    | cons d front =>
      obtain ⟨rfl, -⟩ := List.cons.inj h
      rw [List.nil_append, body, if_pos hbreak]
  | case3 offset cs hbreak => rw [List.singleton_append, body, if_neg hbreak, if_pos rfl]
  | case4 offset cs e stop inner hbreak hquote ih =>
    have hrest : e.rest = inner.text ++ front ++ back := by
      rw [List.append_assoc, ← show inner.rest = front ++ back from h]
      exact (body_append quote stop e.rest).symm
    have htext : '\\' :: e.text ++ inner.text ++ front
        = '\\' :: (e.text ++ (inner.text ++ front)) := by simp
    dsimp only
    rw [htext, body, if_neg hbreak, if_neg hquote, if_pos rfl, escape_again hrest]
    simp only [e, stop, inner] at ih h ⊢
    rw [ih h]
  | case5 offset c cs hbreak hquote hslash inner ih =>
    rw [List.cons_append, body, if_neg hbreak, if_neg hquote, if_neg hslash, ih h]

lemma scan_again {quote : Char} (h : (scan quote (quote :: cs)).rest = front ++ back) :
    scan quote ((scan quote (quote :: cs)).text ++ front)
      = { scan quote (quote :: cs) with rest := front } := by
  have hbody := body_again (show (body quote 1 cs).rest = front ++ back from h)
  simp only [scan, List.cons_append, List.drop_succ_cons, List.drop_zero, hbody]

end Quoted

namespace LongBracket

lemma body_again {level : Nat} (h : (body level cs).rest = front ++ back) :
    body level ((body level cs).text ++ front) = { body level cs with rest := front } := by
  fun_induction body level cs with
  | case1 =>
    obtain ⟨rfl, -⟩ := List.append_eq_nil_iff.1 h.symm
    rw [List.append_nil, body]
  | case2 cs signs after hclose =>
    have hafter := of_decide_eq_true (Bool.and_eq_true_iff.1 hclose).2
    obtain ⟨rest, hrest⟩ := List.head?_eq_some_iff.1 hafter
    have hcut : after = ']' :: front ++ back := by
      rw [List.cons_append, ← h, hrest]
      rfl
    obtain ⟨htake, hdrop⟩ := takeWhile_again hcut
    have htext : ']' :: signs ++ [']'] ++ front = ']' :: (signs ++ ']' :: front) := by simp
    dsimp only
    rw [htext, body, if_pos rfl]
    simp only [signs] at hclose ⊢
    rw [htake, hdrop, if_pos]
    · rfl
    · simpa using (Bool.and_eq_true_iff.1 hclose).1
  | case3 cs signs after hclose inner ih =>
    have hcut : after = inner.text ++ front ++ back := by
      rw [List.append_assoc, ← show inner.rest = front ++ back from h]
      exact (body_append level after).symm
    obtain ⟨htake, hdrop⟩ := takeWhile_again hcut
    have htext : ']' :: signs ++ inner.text ++ front = ']' :: (signs ++ (inner.text ++ front)) := by
      simp
    -- A bracket in front of the cut stood behind the signs before.
    have hopen : ¬ (signs.length = level && (inner.text ++ front).head? = some ']') = true := by
      intro hboth
      rw [Bool.and_eq_true, decide_eq_true_eq, decide_eq_true_eq] at hboth
      refine hclose ?_
      rw [Bool.and_eq_true, decide_eq_true_eq, decide_eq_true_eq, hcut, List.head?_append,
        hboth.2]
      exact ⟨hboth.1, rfl⟩
    dsimp only
    rw [htext, body, if_pos rfl]
    simp only [signs] at hopen ⊢
    rw [htake, hdrop, if_neg hopen]
    simp only [inner] at ih h ⊢
    rw [ih h]
  | case4 c cs hc inner ih => rw [List.cons_append, body, if_neg hc, ih h]

lemma scan_again (h : (scan ('[' :: cs)).rest = front ++ back) :
    scan ((scan ('[' :: cs)).text ++ front) = { scan ('[' :: cs) with rest := front } := by
  cases hlevel : level? ('[' :: cs) with
  | some level =>
    obtain ⟨text, htext⟩ := exists_opening hlevel
    rw [htext, scan_opening] at h ⊢
    split_ifs at h ⊢ with hclosed
    · have hbody := body_again (show (body level text).rest = front ++ back from h)
      simp only [Lexeme.plain, List.append_assoc, scan_opening, hbody, if_pos hclosed]
    · have hbody := body_again (show (body level text).rest = front ++ back from h)
      simp only [Lexeme.malformed, List.append_assoc, scan_opening, hbody, if_neg hclosed]
  | none =>
    have hscan : ∀ ds, level? ('[' :: ds) = none → scan ('[' :: ds)
        = .malformed "invalid long string delimiter" ('[' :: ds.takeWhile (· = '='))
          (ds.dropWhile (· = '=')) := by
      intro ds hds
      rw [scan, hds]
      rfl
    rw [hscan cs hlevel] at h ⊢
    obtain ⟨htake, hdrop⟩ := takeWhile_again h
    have hagain : level? ('[' :: (cs.takeWhile (· = '=') ++ front)) = none := by
      rw [level?_eq_none_iff] at hlevel ⊢
      rw [hdrop]
      intro hhead
      refine hlevel ?_
      rw [show cs.dropWhile (· = '=') = front ++ back from h, List.head?_append, hhead,
        Option.some_or]
    simp only [Lexeme.malformed, List.cons_append, hscan _ hagain, htake, hdrop]

/-- More is taken than one bracket, even if no long bracket is opened. -/
lemma scan_length (h : cs.head? = some '[' ∨ cs.head? = some '=') :
    2 ≤ (scan ('[' :: cs)).text.length := by
  cases hlevel : level? ('[' :: cs) with
  | some level =>
    obtain ⟨text, htext⟩ := exists_opening hlevel
    have hopening : 2 ≤ (opening level).length := by simp [opening]
    rw [htext, scan_opening]
    split <;> simp only [Lexeme.plain, Lexeme.malformed, List.length_append] <;> omega
  | none =>
    rw [level?_eq_none_iff] at hlevel
    rcases h with h | h <;> obtain ⟨tail, rfl⟩ := List.head?_eq_some_iff.1 h
    · exact absurd rfl hlevel
    · rw [scan, level?_eq_none_iff.2 hlevel]
      simp [Lexeme.malformed]

end LongBracket

/-! ### Numerals -/

namespace Numeral

variable {base : Base} {lead fraction sign exponent : List Char}

lemma splitBase_again (h : splitBase cs = (base, lead, front ++ back)) :
    splitBase (lead ++ front) = (base, lead, front) := by
  unfold splitBase at h
  split at h <;> obtain ⟨rfl, rfl, hrest⟩ := by simpa only [Prod.mk.injEq] using h
  · rfl
  · rfl
  · next hlower hupper =>
    subst hrest
    exact splitBase.eq_3 _ (fun _ hfront => hlower _ (congrArg (· ++ back) hfront))
      (fun _ hfront => hupper _ (congrArg (· ++ back) hfront))

lemma splitFraction_again (h : splitFraction base cs = (fraction, front ++ back)) :
    splitFraction base (fraction ++ front) = (fraction, front) := by
  unfold splitFraction at h
  split at h <;> obtain ⟨rfl, hrest⟩ := by simpa only [Prod.mk.injEq] using h
  · obtain ⟨htake, hdrop⟩ := takeWhile_again hrest
    rw [List.cons_append, splitFraction, htake, hdrop]
  · next hdot =>
    subst hrest
    exact splitFraction.eq_2 base _ fun _ hfront => hdot _ (congrArg (· ++ back) hfront)

lemma splitSign_again (h : splitSign cs = (sign, front ++ back)) :
    splitSign (sign ++ front) = (sign, front) := by
  unfold splitSign at h
  split at h <;> obtain ⟨rfl, hrest⟩ := by simpa only [Prod.mk.injEq] using h
  · rfl
  · rfl
  · next hplus hminus =>
    subst hrest
    exact splitSign.eq_3 _ (fun _ hfront => hplus _ (congrArg (· ++ back) hfront))
      (fun _ hfront => hminus _ (congrArg (· ++ back) hfront))

lemma splitExponent_again (h : splitExponent base cs = (exponent, front ++ back)) :
    splitExponent base (exponent ++ front) = (exponent, front) := by
  unfold splitExponent at h
  split at h
  · obtain ⟨rfl, hrest⟩ := by simpa only [Prod.mk.injEq] using h
    obtain ⟨rfl, -⟩ := List.append_eq_nil_iff.1 hrest.symm
    rfl
  · next c cs =>
    obtain ⟨sign, digits, hsign⟩ : ∃ sign digits, splitSign cs = (sign, digits) := ⟨_, _, rfl⟩
    rw [hsign] at h
    split_ifs at h with hmark <;> obtain ⟨rfl, hrest⟩ := by simpa only [Prod.mk.injEq] using h
    · obtain ⟨htake, hdrop⟩ := takeWhile_again hrest
      have hdigits : digits = digits.takeWhile Char.isDigit ++ front ++ back := by
        rw [List.append_assoc, ← hrest, List.takeWhile_append_dropWhile]
      have hagain := splitSign_again (hdigits ▸ hsign)
      simp only [List.cons_append, List.append_assoc, splitExponent, if_pos hmark, hagain, htake,
        hdrop]
    · cases front with
      | nil => rfl
      | cons d front =>
        obtain ⟨rfl, -⟩ := List.cons.inj hrest
        rw [List.nil_append, splitExponent, if_neg hmark]

/-- A numeral takes the same parts again, from the last one to the first. -/
lemma scan_again (h : (scan cs).rest = front ++ back) :
    scan ((scan cs).text ++ front) = { scan cs with rest := front } := by
  obtain ⟨base, lead, inner, hbase⟩ : ∃ base lead inner, splitBase cs = (base, lead, inner) :=
    ⟨_, _, _, rfl⟩
  obtain ⟨fraction, marked, hfraction⟩ : ∃ fraction marked,
      splitFraction base (inner.dropWhile base.isDigit) = (fraction, marked) := ⟨_, _, rfl⟩
  obtain ⟨exponent, extra, hexponent⟩ : ∃ exponent extra,
      splitExponent base marked = (exponent, extra) := ⟨_, _, rfl⟩
  have hrest : extra.dropWhile isTail = front ++ back := by
    simp only [scan, hbase, hfraction, hexponent] at h
    split at h <;> exact h
  obtain ⟨htail, hextra⟩ := takeWhile_again hrest
  have hextra' : extra = extra.takeWhile isTail ++ front ++ back := by
    rw [List.append_assoc, ← hrest, List.takeWhile_append_dropWhile]
  have hmarked : marked = exponent ++ (extra.takeWhile isTail ++ front) ++ back := by
    rw [List.append_assoc, ← hextra']
    simpa only [hexponent] using (splitExponent_append base marked).symm
  have hdigits : inner.dropWhile base.isDigit
      = fraction ++ (exponent ++ (extra.takeWhile isTail ++ front)) ++ back := by
    rw [List.append_assoc, ← hmarked]
    simpa only [hfraction] using (splitFraction_append base (inner.dropWhile base.isDigit)).symm
  obtain ⟨htake, hdrop⟩ := takeWhile_again hdigits
  have hinner : inner = inner.takeWhile base.isDigit
      ++ (fraction ++ (exponent ++ (extra.takeWhile isTail ++ front))) ++ back := by
    rw [List.append_assoc, ← hdigits, List.takeWhile_append_dropWhile]
  have hbase' := splitBase_again (hbase.trans (congrArg (fun ds => (base, lead, ds)) hinner))
  have hfraction' := splitFraction_again (hfraction.trans (congrArg (Prod.mk _) hmarked))
  have hexponent' := splitExponent_again (hexponent.trans (congrArg (Prod.mk _) hextra'))
  have htext : (scan cs).text ++ front = lead ++ (inner.takeWhile base.isDigit
      ++ (fraction ++ (exponent ++ (extra.takeWhile isTail ++ front)))) := by
    simp only [scan, hbase, hfraction, hexponent]
    split <;> simp only [Lexeme.plain, Lexeme.malformed, List.append_assoc]
  rw [htext]
  simp only [scan, hbase, hbase', htake, hdrop, hfraction, hfraction', hexponent, hexponent', htail,
    hextra]
  split <;> rfl

/-- A digit is taken along. -/
lemma scan_text_ne {c : Char} (h : cs.head?.any Char.isDigit = true) :
    (scan (c :: cs)).text ≠ [c] := by
  intro htext
  have happend := scan_append (c :: cs)
  rw [htext] at happend
  cases cs with
  | nil => cases h
  | cons d cs =>
    have hdigit : d.isDigit = true := h
    have htail := not_isTail_of_rest (List.cons.inj happend).2
    simp [isTail, Word.isInner, Char.isAlphanum, hdigit] at htail

end Numeral

/-! ### Words, symbols and lexemes -/

lemma Word.scan_again (h : (scan cs).rest = front ++ back) :
    scan ((scan cs).text ++ front) = { scan cs with rest := front } := by
  obtain ⟨htake, hdrop⟩ := takeWhile_again (show cs.dropWhile isInner = front ++ back from h)
  simp only [scan, Lexeme.plain, htake, hdrop]

/-- What is cut off behind the symbol at the front of a text has no part in it. -/
lemma Symbol.atFront?_again {found : Option Symbol} (h : atFront? (front ++ back) = found)
    (hfound : ∀ sign ∈ found, sign.chars <+: front) : atFront? front = found := by
  have hwhole : ∀ sign : Symbol, sign.chars.isPrefixOf front = true →
      sign.chars.isPrefixOf (front ++ back) = true := by
    intro sign hsign
    rw [List.isPrefixOf_iff_prefix] at hsign ⊢
    exact hsign.trans (List.prefix_append ..)
  cases found with
  | none =>
    rw [atFront?, List.find?_eq_none] at h ⊢
    exact fun sign hmem hsign => h sign hmem (hwhole sign hsign)
  | some sign =>
    have hsign := List.isPrefixOf_iff_prefix.2 (hfound sign rfl)
    obtain ⟨-, before, after, hall, hbefore⟩ := List.find?_eq_some_iff_append.1 h
    refine List.find?_eq_some_iff_append.2 ⟨hsign, before, after, hall, fun other hmem => ?_⟩
    have hother := hbefore other hmem
    rw [Bool.not_eq_true', Bool.eq_false_iff] at hother ⊢
    exact mt (hwhole other) hother

namespace Lexeme

lemma symbol_again {c : Char} (h : (symbol c cs).rest = front ++ back) :
    ∃ more, (symbol c cs).text = c :: more
      ∧ symbol c (more ++ front) = { symbol c cs with rest := front } := by
  have happend := symbol_append c cs
  rw [h, ← List.append_assoc] at happend
  cases hsign : Symbol.atFront? (c :: cs) with
  | some sign =>
    have hsymbol : ∀ ds, Symbol.atFront? (c :: ds) = some sign → symbol c ds
        = .plain (.symbol sign) sign.chars ((c :: ds).drop sign.chars.length) := fun ds hds => by
      rw [symbol, hds]
    rw [hsymbol cs hsign] at happend ⊢
    obtain ⟨d, more, hchars⟩ : ∃ d more, sign.chars = d :: more := by
      cases sign <;> exact ⟨_, _, rfl⟩
    obtain rfl : d = c := by
      have hhead := congrArg List.head? happend
      simpa [plain, hchars] using hhead
    refine ⟨more, hchars, ?_⟩
    have hcut : d :: (more ++ front) = sign.chars ++ front := by rw [hchars, List.cons_append]
    have hagain : Symbol.atFront? (d :: (more ++ front)) = some sign := by
      rw [hcut]
      exact Symbol.atFront?_again ((congrArg Symbol.atFront? happend).trans hsign) (by simp)
    rw [hsymbol _ hagain, hcut, List.drop_left]
    rfl
  | none =>
    have hsymbol : ∀ ds, Symbol.atFront? (c :: ds) = none → symbol c ds
        = .malformed ("unexpected character '" ++ Text.shown c ++ "'") [c] ds := fun ds hds => by
      rw [symbol, hds]
    rw [hsymbol cs hsign] at happend ⊢
    exact ⟨[], rfl, hsymbol front (Symbol.atFront?_again
      ((congrArg Symbol.atFront? happend).trans hsign) (by simp))⟩

lemma ofChars_bracket (h : cs.head? = some '[' ∨ cs.head? = some '=') :
    ofChars '[' cs = LongBracket.scan ('[' :: cs) := by
  simp [ofChars, h]

lemma ofChars_point (h : cs.head?.any Char.isDigit = true) :
    ofChars '.' cs = Numeral.scan ('.' :: cs) := by
  simp [ofChars, h]

/-- What is asked about the second character has the same answer, if no one asks about it once it
is cut off. -/
lemma second_again {p : Option Char → Bool} {more : List Char} (hcs : cs = more ++ front ++ back)
    (hnone : p none = false) (hmore : p cs.head? = true → more ≠ []) :
    p (more ++ front).head? = p cs.head? := by
  have hhead : cs.head? = (more ++ front).head?.or back.head? := by rw [hcs, List.head?_append]
  cases hcut : (more ++ front).head? with
  | some d => rw [hhead, hcut, Option.some_or]
  | none =>
    obtain ⟨rfl, -⟩ := List.append_eq_nil_iff.1 (List.head?_eq_none_iff.1 hcut)
    rw [hnone, eq_comm, ← Bool.not_eq_true]
    exact fun hp => hmore hp rfl

/-- **A lexeme is read again** from a text that is cut at its end, or anywhere behind. -/
theorem ofChars_again {c : Char} (h : (ofChars c cs).rest = front ++ back) :
    ∃ more, (ofChars c cs).text = c :: more
      ∧ ofChars c (more ++ front) = { ofChars c cs with rest := front } := by
  have happend := ofChars_append c cs
  obtain ⟨d, more, htext⟩ := List.exists_cons_of_ne_nil (ofChars_text_ne_nil c cs)
  rw [htext, h] at happend
  obtain ⟨rfl, -⟩ := List.cons.inj happend
  have hcs : cs = more ++ front ++ back := by simpa using (List.cons.inj happend).2.symm
  refine ⟨more, htext, ?_⟩
  -- A scan that was chosen for the second character has taken it.
  have hbracket := second_again
    (p := fun second => d = '[' && (second = some '[' || second = some '=')) hcs (by simp) (by
      intro hd
      obtain ⟨rfl, hsecond⟩ : d = '[' ∧ (cs.head? = some '[' ∨ cs.head? = some '=') := by
        simpa using hd
      have hlength := LongBracket.scan_length hsecond
      rw [← ofChars_bracket hsecond, htext] at hlength
      rintro rfl
      simp at hlength)
  have hpoint := second_again (p := fun second => d = '.' && second.any Char.isDigit) hcs
    (by simp) (by
      intro hd
      obtain ⟨rfl, hsecond⟩ : d = '.' ∧ cs.head?.any Char.isDigit = true := by simpa using hd
      rintro rfl
      exact Numeral.scan_text_ne hsecond (ofChars_point hsecond ▸ htext))
  have hwhole := ofChars.eq_1 d cs
  rw [ofChars, hbracket, hpoint, ← List.cons_append, ← htext]
  split_ifs at hwhole ⊢ with hquote hopen hdigit hstart <;> rw [hwhole] at h htext ⊢
  · exact Quoted.scan_again h
  · obtain rfl : d = '[' := of_decide_eq_true (Bool.and_eq_true_iff.1 hopen).1
    exact LongBracket.scan_again h
  · exact Numeral.scan_again h
  · exact Word.scan_again h
  · obtain ⟨more', htext', hagain⟩ := symbol_again h
    obtain rfl : more = more' := (List.cons.inj (htext.symm.trans htext')).2
    exact hagain

end Lexeme

/-! ### Tokens -/

/-- What is no comment and no blank does not become one where it is cut. -/
lemma Gap.piece?_again {c : Char} (h : piece? (c :: (front ++ back)) = none) :
    piece? (c :: front) = none := by
  rw [piece?_eq_none_iff] at h ⊢
  cases front with
  | nil => exact ⟨h.1, by simp⟩
  | cons d front => exact h

/-- **A token is lexed by itself** to the same token and the end of the text. What is reported then
is what was reported within its span. -/
theorem Lexed.tokens_alone {source : String} {t : Token} (ht : t ∈ (ofSource source).tokens)
    (hkind : t.kind ≠ .eof) :
    (ofSource t.text).tokens = [⟨t.kind, t.text, ⟨0, byteSize t.text.toList⟩, []⟩,
        ⟨.eof, "", .empty (byteSize t.text.toList), []⟩]
      ∧ (ofSource t.text).diagnostics.map (·.shift t.span.start)
        = (ofSource source).diagnostics.filter (t.span.encloses ·.span) := by
  obtain ⟨x, hx, rfl⟩ := List.mem_map.1 ht
  obtain ⟨front, c, cs, h⟩ := Scanned.exists_reading 0 source.toList x hx hkind
  obtain ⟨more, htext, hagain⟩ :=
    Lexeme.ofChars_again (List.nil_append (Lexeme.ofChars c cs).rest).symm
  rw [List.append_nil] at hagain
  have hcs : c :: cs = c :: (more ++ (Lexeme.ofChars c cs).rest) := by
    rw [← List.cons_append, ← htext, Lexeme.ofChars_append]
  have hgap := Gap.piece?_again (hcs ▸ h.gap)
  have hword : x.token.text.toList = c :: more := by rw [h.text, String.toList_ofList, htext]
  have hscanned := Scanned.ofChars_single 0 hgap (by rw [hagain])
  rw [hagain] at hscanned
  have hlexed : Scanned.ofChars 0 x.token.text.toList
      = [⟨⟨x.token.kind, x.token.text, ⟨0, byteSize x.token.text.toList⟩, []⟩,
          (Lexeme.ofChars c cs).diagnostics⟩,
        ⟨⟨.eof, "", .empty (byteSize x.token.text.toList), []⟩, []⟩] := by
    rw [hword, hscanned, h.kind, h.text, ← htext]
    simp [Scanned.first, Diagnostic.shift, Span.shift]
  constructor
  · simp only [ofSource, hlexed, List.map_cons, List.map_nil]
  · have hreports := h.reports
    simp only [ofSource, hlexed, List.flatMap_cons, List.flatMap_nil, List.append_nil]
    exact hreports.symm

/-- A malformed numeral stays one without the blank and the sign in front of it. -/
theorem Lexed.tokens_alone_numeral :
    (⟨.invalid, "3..2", ⟨4, 8⟩, [⟨.whitespace, " ", ⟨3, 4⟩⟩]⟩ : Token)
        ∈ (ofSource "x = 3..2").tokens
      ∧ (ofSource "3..2").tokens = [⟨.invalid, "3..2", ⟨0, 4⟩, []⟩, ⟨.eof, "", ⟨4, 4⟩, []⟩] := by
  have hmem : (⟨.invalid, "3..2", ⟨4, 8⟩, [⟨.whitespace, " ", ⟨3, 4⟩⟩]⟩ : Token)
      ∈ (ofSource "x = 3..2").tokens := by decide +kernel
  exact ⟨hmem, (tokens_alone hmem (by decide)).1⟩

end LuaFront
