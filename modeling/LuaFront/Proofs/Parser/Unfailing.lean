import LuaFront.Proofs.Parser.Realized

/-!
Parsers do nothing that is not possible. Asked for one thing after the other, a machine never stops,
and answers what a parser does; and each state that it passes is one to which the parser can come.
-/

namespace LuaFront

open ParseState

/-- What holds of each state of a machine that parses some tokens. -/
structure Machine.Secure (tokens : List Token) (m : Machine) : Prop where
  depth_le : m.depth ≤ maxDepth
  tokens_eq : m.tokens = (Machine.ofTokens tokens).tokens
  pos_lt : m.pos < m.tokens.length
  /-- Once the rest of the input was given up, the machine is at its end. -/
  ended : m.tooDeep = true → m.tokens[m.pos]?.any (·.kind = .eof)
  reachable : ∃ s : ParseState, s.Reachable tokens ∧ s.machine = m

namespace ParseState

variable {tokens : List Token} {s t : ParseState}

lemma Later.tokens_eq (h : s.Later t) : t.cursor.tokens = s.cursor.tokens := by
  induction h with
  | now => rfl
  | walk _ hwalk ih => exact hwalk.onward.cursor.tokens_eq.trans ih
  | inside _ hnone ih =>
    obtain ⟨-, -, henter⟩ := Parse.enter_eq_none hnone
    exact henter ▸ ih
  | outside _ ih => exact ih

lemma Reachable.secure (h : s.Reachable tokens) : s.machine.Secure tokens where
  depth_le := h.valid.depth
  tokens_eq := by
    rw [← machine_ofTokens]
    exact Later.tokens_eq h
  pos_lt := (List.getElem?_eq_some_iff.1 s.cursor.getElem?_pos).1
  ended hdeep := by
    have hcurrent : s.machine.tokens[s.machine.pos]? = some s.cursor.current :=
      s.cursor.getElem?_pos
    rw [hcurrent, Option.any_some, (h.valid.gaveUp hdeep).1]
    rfl
  reachable := ⟨s, h, rfl⟩

end ParseState

namespace Grammar

/-! ### Requests -/

/-- What a parser can be asked for. -/
inductive Request where
  | expression
  | chunk

inductive Answer where
  | expression (e : Expr)
  | chunk (b : Block)

namespace Request

def parse : Request → Parse Answer
  | expression => do return .expression (← Grammar.expression)
  | chunk => do return .chunk (← Grammar.chunk)

def check : Request → Checked Answer
  | expression => do return .expression (← Checked.expression)
  | chunk => do return .chunk (← Checked.chunk)

instance parse_steady {r : Request} : Parse.Steady r.parse := by
  cases r with
  | expression =>
    have hsteady : Parse.Steady Grammar.expression := Level.Steady.expr 0
    exact .bind
  | chunk => exact .bind

instance check_realized {r : Request} : Checked.Realizes 0 r.check r.parse := by
  cases r with
  | expression =>
    have hsteady : Parse.Steady Grammar.expression := Level.Steady.expr 0
    exact .bind
  | chunk => exact .bind

end Request

instance parseAll_steady {requests : List Request} :
    Parse.Steady (requests.mapM Request.parse) := by
  induction requests with
  | nil => exact .ret
  | cons r requests ih =>
    rw [List.mapM_cons]
    infer_instance

instance checkAll_realized {requests : List Request} :
    Checked.Realizes 0 (requests.mapM Request.check) (requests.mapM Request.parse) := by
  induction requests with
  | nil => exact .ret
  | cons r requests ih =>
    rw [List.mapM_cons, List.mapM_cons]
    infer_instance

/-- **Parsers do nothing that is not possible.** Whatever is asked of a machine that parses some
tokens, one thing after the other, it does not stop: it reads no token where there is none, leaves
no more levels than it has entered, one by one or all those of a chain at once, and puts items and
delimiters on a list only in turn. It answers what the parser does, and in the end it has left all
levels. In each state that it has passed

* it is no deeper than there are levels, and its place is that of one of the tokens;
* where the rest of the input was given up, its place is that of an end of input, and stays so;
* the parser can come to the same state. -/
theorem parsers_unfailing (tokens : List Token) (requests : List Request) :
    let r := (requests.mapM Request.parse).run (.ofTokens tokens)
    r.2.depth = 0 ∧ ∃ passed,
      (requests.mapM Request.check).run ⟨.ofTokens tokens, []⟩ = some (r.1, ⟨r.2.machine, passed⟩)
      ∧ (∀ m ∈ r.2.machine :: passed, m.Secure tokens)
      ∧ (r.2.machine :: passed).Pairwise fun later earlier => earlier.Settles later := by
  intro r
  have hvalid := ofTokens_valid tokens
  have hcomes := (checkAll_realized : Checked.Realizes 0 (requests.mapM Request.check) _).comes
    _ hvalid rfl
  obtain ⟨passed, hrun, htrail⟩ := hcomes.run []
  rw [machine_ofTokens, List.append_nil] at hrun
  refine ⟨(Parse.Steady.onward _).depth, passed, hrun, ?_, htrail.settles⟩
  refine List.forall_mem_cons.2 ⟨Reachable.secure hcomes.later, fun m hm => ?_⟩
  obtain ⟨s, hs, rfl⟩ := htrail.within m hm
  exact Reachable.secure hs

/-- Both suffixes of `a.a.a` enter a level. These are left at once, and then that around them. -/
example :
    let name : Token := ⟨.ident, "a", ⟨0, 1⟩, []⟩
    let dot : Token := ⟨.symbol .dot, ".", ⟨1, 2⟩, []⟩
    (Request.expression.check.run ⟨.ofTokens [name, dot, name, dot, name], []⟩).map
        (fun r => (r.2.now :: r.2.passed).map (·.depth))
      = some [0, 1, 3, 3, 3, 2, 2, 2, 1, 1, 0] := by
  decide +kernel

end Grammar

end LuaFront
