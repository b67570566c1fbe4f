import LuaFront.Editor.Workspace
import Mathlib.Tactic.Lemma

/-!
Workspaces over time. What a workspace holds is found in the calls it has had: a document is open
from the first time it was opened since it was last closed, and the newest of the versions that
came since is current.
-/

namespace LuaFront

/-! ### Calls -/

namespace Workspace

inductive Call where
  | open_ (uri : String) (version : Int) (text : String)
  | update (uri : String) (version : Int) (text : String)
  | close (uri : String)

inductive Answer where
  | current (d : Document)
  | failed (error : EditorError)
  | closed (wasOpen : Bool)

namespace Call

def uri : Call → String
  | open_ uri _ _ | update uri _ _ | close uri => uri

/-- The version that a call brings of a document. -/
def version? (uri : String) : Call → Option Document
  | open_ uri' version text | update uri' version text =>
    if uri' = uri then some (.ofText version text) else none
  | close _ => none

end Call

/-- Answers a call. A call that fails leaves the workspace as it is. -/
def answer (w : Workspace) : Call → Answer × Workspace
  | .open_ uri version text =>
    let (d, w') := w.open_ uri version text
    (.current d, w')
  | .update uri version text =>
    match w.update uri version text with
    | .ok (d, w') => (.current d, w')
    | .error e => (.failed e, w)
  | .close uri =>
    let (wasOpen, w') := w.close uri
    (.closed wasOpen, w')

/-- Answers calls one after the other. -/
def run (w : Workspace) : List Call → List Answer × Workspace
  | [] => ([], w)
  | c :: calls =>
    let first := w.answer c
    let rest := first.2.run calls
    (first.1 :: rest.1, rest.2)

/-- What was answered to a sequence of calls. -/
def answers (calls : List Call) : List Answer := (empty.run calls).1

/-- The workspace after a sequence of calls. -/
def after (calls : List Call) : Workspace := (empty.run calls).2

lemma run_append (w : Workspace) (calls more : List Call) :
    w.run (calls ++ more)
      = ((w.run calls).1 ++ ((w.run calls).2.run more).1, ((w.run calls).2.run more).2) := by
  induction calls generalizing w with
  | nil => rfl
  | cons c calls ih => simp only [List.cons_append, run, ih]

/-! ### The calls about a document -/

variable {uri : String} {calls : List Call}

/-- The document was opened, and not closed since. -/
def Opened (uri : String) (calls : List Call) : Prop :=
  ∃ before version text later, calls = before ++ .open_ uri version text :: later
    ∧ .close uri ∉ later

/-- The last part of the calls, from the first time the document was opened since it was last
closed. -/
def Session (uri : String) (calls session : List Call) : Prop :=
  ∃ before version text later, calls = before ++ session ∧ ¬ Opened uri before
    ∧ session = .open_ uri version text :: later ∧ .close uri ∉ later

/-- The document has the greatest version of all in a list, and is the last one that has it. -/
def Newest (ds : List Document) (d : Document) : Prop :=
  ∃ front back, ds = front ++ d :: back
    ∧ (∀ e ∈ front, e.version ≤ d.version) ∧ ∀ e ∈ back, e.version < d.version

lemma not_opened_nil : ¬ Opened uri [] := by
  rintro ⟨before, version, text, later, h, -⟩
  simp at h

/-- Any call but one that closes the document leaves it open. -/
lemma opened_concat (c : Call) : Opened uri (calls ++ [c])
    ↔ (∃ version text, c = .open_ uri version text) ∨ Opened uri calls ∧ c ≠ .close uri := by
  constructor
  · rintro ⟨before, version, text, later, h, hlater⟩
    rcases later.eq_nil_or_concat with rfl | ⟨later, last, rfl⟩
    · obtain ⟨-, hc⟩ := List.append_inj' h rfl
      exact .inl ⟨version, text, List.head_eq_of_cons_eq hc⟩
    · have hsplit : calls ++ [c] = (before ++ .open_ uri version text :: later) ++ [last] := by
        simpa using h
      obtain ⟨hcalls, hc⟩ := List.append_inj' hsplit rfl
      obtain rfl := List.head_eq_of_cons_eq hc
      rw [List.concat_eq_append, List.mem_append, List.mem_singleton, not_or] at hlater
      exact .inr ⟨⟨before, version, text, later, hcalls, hlater.1⟩, Ne.symm hlater.2⟩
  · rintro (⟨version, text, rfl⟩ | ⟨⟨before, version, text, later, rfl, hlater⟩, hc⟩)
    · exact ⟨calls, version, text, [], rfl, List.not_mem_nil⟩
    · refine ⟨before, version, text, later ++ [c], by simp, ?_⟩
      simpa [hlater] using Ne.symm hc

lemma Session.concat {session : List Call} (h : Session uri calls session) {c : Call}
    (hc : c ≠ .close uri) : Session uri (calls ++ [c]) (session ++ [c]) := by
  obtain ⟨before, version, text, later, rfl, hbefore, rfl, hlater⟩ := h
  refine ⟨before, version, text, later ++ [c], by simp, hbefore, rfl, ?_⟩
  simpa [hlater] using Ne.symm hc

lemma Session.opened {session : List Call} (h : Session uri calls session) : Opened uri calls := by
  obtain ⟨before, version, text, later, rfl, -, rfl, hlater⟩ := h
  exact ⟨before, version, text, later, rfl, hlater⟩

lemma Session.eq_of_longer {session other : List Call} {before rest : List Call}
    (h : Session uri calls session) (hcalls : calls = before ++ other)
    (hbefore : ¬ Opened uri before) (hsession : session = rest ++ other) : session = other := by
  obtain ⟨front, version, text, later, hfront, -, hopen, hlater⟩ := h
  rcases rest with _ | ⟨c, rest⟩
  · exact hsession
  · -- The document is opened in what `other` leaves out, and not closed after that.
    rw [hsession, List.cons_append] at hopen
    obtain ⟨rfl, rfl⟩ := List.cons.inj hopen
    rw [hsession, hcalls, ← List.append_assoc] at hfront
    refine absurd ⟨front, version, text, rest, List.append_cancel_right hfront, ?_⟩ hbefore
    exact fun hin => hlater (List.mem_append_left _ hin)

lemma Session.unique {session other : List Call} (h : Session uri calls session)
    (h' : Session uri calls other) : session = other := by
  obtain ⟨before, -, -, -, hcalls, hbefore, -⟩ := id h
  obtain ⟨before', -, -, -, hcalls', hbefore', -⟩ := id h'
  rcases List.append_eq_append_iff.1 (hcalls.symm.trans hcalls') with
    ⟨rest, -, hrest⟩ | ⟨rest, -, hrest⟩
  · exact h.eq_of_longer hcalls' hbefore' hrest
  · exact (h'.eq_of_longer hcalls hbefore hrest).symm

lemma Newest.revise {ds : List Document} {d : Document} (h : Newest ds d) (version : Int)
    (text : String) : Newest (ds ++ [.ofText version text]) (d.revise version text) := by
  obtain ⟨front, back, rfl, hfront, hback⟩ := h
  unfold Document.revise
  split
  · next hold =>
    refine ⟨front, back ++ [.ofText version text], by simp, hfront, ?_⟩
    simpa [or_imp, forall_and] using ⟨hback, hold⟩
  · next hnew =>
    have hle : d.version ≤ version := Int.not_lt.1 hnew
    refine ⟨front ++ d :: back, [], rfl, ?_, List.forall_mem_nil _⟩
    intro e he
    rcases List.mem_append.1 he with he | he
    · exact Int.le_trans (hfront e he) hle
    · rcases List.mem_cons.1 he with rfl | he
      · exact hle
      · exact Int.le_trans (Int.le_of_lt (hback e he)) hle

/-! ### Steps -/

lemma document_eq_ok {w : Workspace} {d : Document} :
    w.document uri = .ok d ↔ w.documents[uri]? = some d := by
  unfold document
  split <;> simp [*]

lemma update_of_open {w : Workspace} {d : Document} (h : w.documents[uri]? = some d)
    (version : Int) (text : String) : w.update uri version text
      = .ok (d.revise version text, ⟨w.documents.insert uri (d.revise version text)⟩) := by
  rw [update, document, h]
  rfl

lemma update_of_not_open {w : Workspace} (h : w.documents[uri]? = none) (version : Int)
    (text : String) : w.update uri version text = .error (.notOpen uri) := by
  rw [update, document, h]
  rfl

/-- What the workspace holds for a document is what the calls say. -/
def Tells (uri : String) (calls : List Call) : Option Document → Prop
  | none => ¬ Opened uri calls
  | some d => ∃ session, Session uri calls session
    ∧ Newest (session.filterMap (Call.version? uri)) d

/-- A call that brings no version of a document, and does not close it. -/
lemma Tells.other {d? : Option Document} (h : Tells uri calls d?) {c : Call}
    (hopen : ∀ version text, c ≠ .open_ uri version text) (hclose : c ≠ .close uri)
    (hversion : d?.isSome → c.version? uri = none) : Tells uri (calls ++ [c]) d? := by
  cases d? with
  | none =>
    rw [Tells, opened_concat]
    rintro (⟨version, text, hc⟩ | ⟨hopened, -⟩)
    · exact hopen version text hc
    · exact h hopened
  | some d =>
    obtain ⟨session, hsession, hnewest⟩ := h
    refine ⟨session ++ [c], hsession.concat hclose, ?_⟩
    rwa [List.filterMap_append, List.filterMap_cons_none (hversion rfl), List.filterMap_nil,
      List.append_nil]

/-- A call that brings a version of an open document. -/
lemma Tells.revise {d : Document} (h : Tells uri calls (some d)) {c : Call} {version : Int}
    {text : String} (hclose : c ≠ .close uri)
    (hversion : c.version? uri = some (.ofText version text)) :
    Tells uri (calls ++ [c]) (some (d.revise version text)) := by
  obtain ⟨session, hsession, hnewest⟩ := h
  refine ⟨session ++ [c], hsession.concat hclose, ?_⟩
  rw [List.filterMap_append, List.filterMap_cons_some hversion, List.filterMap_nil]
  exact hnewest.revise version text

/-- A document that was not open is opened. -/
lemma Tells.open_ (h : Tells uri calls none) (version : Int) (text : String) :
    Tells uri (calls ++ [.open_ uri version text]) (some (.ofText version text)) := by
  refine ⟨[.open_ uri version text], ⟨calls, version, text, [], rfl, h, rfl, List.not_mem_nil⟩, ?_⟩
  refine ⟨[], [], ?_, List.forall_mem_nil _, List.forall_mem_nil _⟩
  simp [Call.version?]

lemma tells_close : Tells uri (calls ++ [.close uri]) none := by
  rw [Tells, opened_concat]
  rintro (⟨version, text, hc⟩ | ⟨-, hc⟩)
  · cases hc
  · exact hc rfl

/-- A call keeps the workspace to what the calls say. -/
lemma tells_answer {w : Workspace} (h : ∀ uri, Tells uri calls w.documents[uri]?) (c : Call)
    (uri : String) : Tells uri (calls ++ [c]) (w.answer c).2.documents[uri]? := by
  cases c with
  | open_ uri' version text =>
    simp only [answer, Workspace.open_, Std.TreeMap.getElem?_insert,
      Std.LawfulEqCmp.compare_eq_iff_eq]
    split
    · next heq =>
      subst heq
      have h := h uri'
      split
      · next d hd =>
        rw [hd] at h
        exact h.revise (by simp) (by simp [Call.version?])
      · next hnone =>
        rw [hnone] at h
        exact h.open_ version text
    · next hne => exact (h uri).other (by simp [hne]) (by simp) (by simp [Call.version?, hne])
  | update uri' version text =>
    cases hold : w.documents[uri']? with
    | none =>
      rw [answer, update_of_not_open hold]
      refine (h uri).other (by simp) (by simp) fun hopen => ?_
      rw [Call.version?, if_neg]
      rintro rfl
      simp [hold] at hopen
    | some d =>
      rw [answer, update_of_open hold]
      simp only [Std.TreeMap.getElem?_insert, Std.LawfulEqCmp.compare_eq_iff_eq]
      split
      · next heq =>
        subst heq
        have h := h uri'
        rw [hold] at h
        exact h.revise (by simp) (by simp [Call.version?])
      · next hne => exact (h uri).other (by simp) (by simp) (by simp [Call.version?, hne])
  | close uri' =>
    simp only [answer, Workspace.close, Std.TreeMap.getElem?_erase,
      Std.LawfulEqCmp.compare_eq_iff_eq]
    split
    · next heq =>
      subst heq
      exact tells_close
    · next hne => exact (h uri).other (by simp) (by simpa using hne) (fun _ => rfl)

lemma tells_run {w : Workspace} (h : ∀ uri, Tells uri calls w.documents[uri]?) (more : List Call)
    (uri : String) : Tells uri (calls ++ more) (w.run more).2.documents[uri]? := by
  induction more generalizing calls w with
  | nil => simpa [run] using h uri
  | cons c more ih =>
    rw [List.append_cons]
    exact ih fun uri => tells_answer h c uri

lemma tells_after (uri : String) (calls : List Call) :
    Tells uri calls (after calls).documents[uri]? := by
  have hempty : ∀ uri, Tells uri [] empty.documents[uri]? := by
    intro uri
    rw [empty, Std.TreeMap.getElem?_emptyc]
    exact not_opened_nil
  exact tells_run hempty calls uri

/-! ### Answers -/

/-- A document is answered to a call that opens it, and to an update of one that is open. -/
lemma answers_current_iff {w : Workspace} (c : Call) : (∃ d, (w.answer c).1 = .current d)
    ↔ (∃ version text, c = .open_ c.uri version text)
      ∨ (∃ d, w.document c.uri = .ok d) ∧ ∃ version text, c = .update c.uri version text := by
  cases c with
  | open_ uri version text => exact iff_of_true ⟨_, rfl⟩ (.inl ⟨version, text, rfl⟩)
  | update uri version text =>
    simp only [document_eq_ok, Call.uri]
    cases hold : w.documents[uri]? with
    | none =>
      rw [answer, update_of_not_open hold]
      exact iff_of_false (by simp) (by simp)
    | some d =>
      rw [answer, update_of_open hold]
      exact iff_of_true ⟨_, rfl⟩ (.inr ⟨⟨d, rfl⟩, version, text, rfl⟩)
  | close uri => exact iff_of_false (by simp [answer]) (by simp)

/-- What is answered with a document has become current. -/
lemma document_of_current {w : Workspace} {c : Call} {d : Document}
    (h : (w.answer c).1 = .current d) : (w.answer c).2.document c.uri = .ok d := by
  rw [document_eq_ok]
  cases c with
  | open_ uri version text =>
    cases h
    simp [answer, Workspace.open_, Call.uri]
  | update uri version text =>
    cases hold : w.documents[uri]? with
    | none =>
      rw [answer, update_of_not_open hold] at h
      cases h
    | some d =>
      rw [answer, update_of_open hold] at h ⊢
      cases h
      simp [Call.uri]
  | close uri => cases h

lemma document_of_ne {w : Workspace} {c : Call} (h : c.uri ≠ uri) :
    (w.answer c).2.document uri = w.document uri := by
  have hdocuments : (w.answer c).2.documents[uri]? = w.documents[uri]? := by
    cases c with
    | open_ uri' version text =>
      simp [answer, Workspace.open_, Std.TreeMap.getElem?_insert, show uri' ≠ uri from h]
    | update uri' version text =>
      cases hold : w.documents[uri']? with
      | none => rw [answer, update_of_not_open hold]
      | some d =>
        rw [answer, update_of_open hold]
        simp [Std.TreeMap.getElem?_insert, show uri' ≠ uri from h]
    | close uri' =>
      simp [answer, Workspace.close, Std.TreeMap.getElem?_erase, show uri' ≠ uri from h]
  rw [document, document, hdocuments]

lemma mem_uris (w : Workspace) : uri ∈ w.uris ↔ ∃ d, w.document uri = .ok d := by
  simp only [uris, Std.TreeMap.mem_keys, Std.TreeMap.mem_iff_isSome_getElem?, document_eq_ok,
    Option.isSome_iff_exists]

lemma uris_ordered (w : Workspace) : w.uris.Pairwise (· < ·) := by
  have hkeys : w.uris.Pairwise fun a b => compare a b = .lt := Std.TreeMap.ordered_keys
  exact hkeys.imp fun h => compareOfLessAndEq_eq_lt.1 h

/-- **A workspace holds what its calls say.** A document is open if it was opened and not closed
since. Then its newest version is current: of those that came in the session, from the first time
it was opened since it was last closed, the one with the greatest number, and the last of these.
Opening a document, and updating an open one, is answered with what has become current then; an
update of a document that is not open is refused and changes nothing. Other documents and earlier
answers stay as they are. -/
theorem history (uri : String) (calls : List Call) :
    ((∃ d, (after calls).document uri = .ok d) ↔ Opened uri calls)
      ∧ (∀ d, (after calls).document uri = .ok d → ∃ session,
        (∀ other, Session uri calls other ↔ other = session)
          ∧ Newest (session.filterMap (Call.version? uri)) d)
      ∧ (∀ c : Call, (∃ d, ((after calls).answer c).1 = .current d)
        ↔ (∃ version text, c = .open_ c.uri version text)
          ∨ Opened c.uri calls ∧ ∃ version text, c = .update c.uri version text)
      ∧ (∀ c d, ((after calls).answer c).1 = .current d →
        ((after calls).answer c).2.document c.uri = .ok d)
      ∧ (¬ Opened uri calls → ∀ version text, (after calls).answer (.update uri version text)
        = (.failed (.notOpen uri), after calls))
      ∧ (∀ c : Call, c.uri ≠ uri →
        ((after calls).answer c).2.document uri = (after calls).document uri)
      ∧ (∀ more, answers calls <+: answers (calls ++ more))
      ∧ (∀ uri', uri' ∈ (after calls).uris ↔ Opened uri' calls)
      ∧ (after calls).uris.Pairwise (· < ·) := by
  have hopened : ∀ uri, (∃ d, (after calls).document uri = .ok d) ↔ Opened uri calls := by
    intro uri
    have htells := tells_after uri calls
    simp only [document_eq_ok]
    cases hd : (after calls).documents[uri]? with
    | none =>
      rw [hd] at htells
      exact iff_of_false (by simp) htells
    | some d =>
      rw [hd] at htells
      obtain ⟨session, hsession, -⟩ := htells
      exact iff_of_true ⟨d, rfl⟩ hsession.opened
  refine ⟨hopened uri, fun d hd => ?_, fun c => ?_, fun c d => document_of_current,
    fun hclosed version text => ?_, fun c => document_of_ne, fun more => ?_, fun uri' => ?_,
    uris_ordered _⟩
  · have htells := tells_after uri calls
    rw [document_eq_ok.1 hd] at htells
    obtain ⟨session, hsession, hnewest⟩ := htells
    exact ⟨session, fun other => ⟨fun h => h.unique hsession, fun h => h ▸ hsession⟩, hnewest⟩
  · rw [answers_current_iff, hopened]
  · have hnone : (after calls).documents[uri]? = none := by
      rw [← hopened, not_exists] at hclosed
      simpa [document_eq_ok, Option.eq_none_iff_forall_ne_some] using hclosed
    rw [answer, update_of_not_open hnone]
  · rw [answers, answers, run_append]
    exact List.prefix_append _ _
  · rw [mem_uris, hopened]

example :
    let w := after [.open_ "a" 5 "x", .update "a" 4 "y", .update "a" 5 "z"]
    (w.document "a").toOption.map (·.text) = some "z" := by
  decide +kernel

end Workspace

end LuaFront
