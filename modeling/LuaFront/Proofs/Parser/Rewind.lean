import LuaFront.Proofs.Parser.Progress

/-!
Going back without a trace. Of a state to which it may return, a parser keeps the place and the
number of errors. All else is as it was when the parser returns: the levels that were entered since
then have been left, the errors reported since then are the last ones, and the rest of the input was
not given up, since the parser stands at an equals sign.
-/

namespace LuaFront

open Parse Grammar

namespace ParseState

variable {s s' : ParseState}

/-- Where tokens are left, nothing has been given up on the way. -/
lemma Walk.tooDeep_eq (h : s.Walk s') (hs : s.Valid) (hkind : s'.cursor.current.kind ≠ .eof) :
    s'.tooDeep = s.tooDeep := by
  have hgoing := (h.onward.valid hs).going hkind
  exact hgoing.trans (h.onward.going hgoing).symm

lemma Walk.run_restore (h : s.Walk s') (hs : s.Valid) (hkind : s'.cursor.current.kind ≠ .eof) :
    (restore (checkpoint.run s).1).run s' = ((), s) :=
  Parse.run_restore h.onward ((h.onward.valid hs).going hkind)

end ParseState

namespace Grammar

/-- **Going back leaves no trace.** From every state that a parser of any tokens can come to, it may
go on in whatever way: as long as tokens are left, it can return to that very state. So it does where
the values after an equals sign, of whatever level, end at another one. From there it reports that
they are missing, and nothing else has happened. Elsewhere the values stay as they were read. -/
theorem rewind_traceless {tokens : List Token} {s : ParseState} (hs : s.Reachable tokens) :
    let start := (checkpoint.run s).1
    (∀ s', s.Walk s' → s'.cursor.current.kind ≠ .eof → (restore start).run s' = ((), s))
      ∧ ∀ (k : Nat) (eq : Token),
        let tried := (level k).exprList.run s
        if tried.2.cursor.current.kind = .symbol .eq ∧ eq.isMissing = false then
          (restore start).run tried.2 = ((), s)
            ∧ (assignedValues (level k) eq).run s = (noValues eq.span.stop,
              { s with
                log := told s
                  (.error (.empty eq.span.stop) "expected expression after '='" []) })
        else (assignedValues (level k) eq).run s = tried := by
  intro start
  refine ⟨fun s' hwalk => hwalk.run_restore hs.valid, fun k eq => ?_⟩
  intro tried
  have hwalk : s.Walk tried.2 := Steady.walk (p := (level k).exprList) s
  split
  · next hback =>
    have hkind : tried.2.cursor.current.kind ≠ .eof := by
      rw [hback.1]
      decide
    refine ⟨hwalk.run_restore hs.valid hkind, ?_⟩
    rw [run_assignedValues, if_pos hback, hwalk.tooDeep_eq hs.valid hkind,
      run_bind (run_error_eq ..)]
    rfl
  · next hstay => rw [run_assignedValues, if_neg hstay]

/-- In `a = f( = c` the call is read as a value and an error reported in it, before the parser
returns. -/
theorem rewind_traceless_call :
    let word : Token := ⟨.ident, "a", ⟨0, 1⟩, []⟩
    let eq : Token := ⟨.symbol .eq, "=", ⟨2, 3⟩, []⟩
    let opening : Token := ⟨.symbol .openParen, "(", ⟨5, 6⟩, []⟩
    let second : Token := ⟨.symbol .eq, "=", ⟨7, 8⟩, []⟩
    let outer : ParseState := .ofTokens [word, eq, word, opening, second, word]
    let s := (advance.run (advance.run { outer with depth := 1 }).2).2
    let tried := (level maxDepth).exprList.run s
    s.Reachable [word, eq, word, opening, second, word]
      ∧ tried.2.cursor.pos = 4 ∧ tried.2.log.size = 1
      ∧ (restore (checkpoint.run s).1).run tried.2 = ((), s)
      ∧ s.cursor.pos = 2 ∧ s.log.size = 0 := by
  intro word eq opening second outer s tried
  have hs : s.Reachable [word, eq, word, opening, second, word] :=
    .walk (.walk (.inside .now rfl) (.advance _)) (.advance _)
  obtain ⟨hpos, hsize, hkind⟩ : tried.2.cursor.pos = 4 ∧ tried.2.log.size = 1
      ∧ tried.2.cursor.current.kind = .symbol .eq := by decide +kernel
  have hrest := (rewind_traceless hs).2 maxDepth eq
  rw [if_pos ⟨hkind, by decide⟩] at hrest
  exact ⟨hs, hpos, hsize, hrest.1, rfl, rfl⟩

end Grammar

end LuaFront
