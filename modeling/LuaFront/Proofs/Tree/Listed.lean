import LuaFront.Syntax.Node
import Mathlib.Tactic.Lemma

/-!
How the items of a list are joined. A list is built by putting an item on one that is delimited
all through, and a delimiter on one that lacks it after its last item.
-/

namespace LuaFront

namespace Separated

variable {α : Type}

/-- Every item but the last has a delimiter after it, and delimiters are of certain kinds. -/
structure Joined (kinds : TokenKind → Prop) (l : Separated α) : Prop where
  inner : ∀ pair ∈ l.pairs.dropLast, pair.delimiter.isSome
  kind : ∀ pair ∈ l.pairs, ∀ t ∈ pair.delimiter, kinds t.kind

/-- Items with commas between them, which may be none. -/
def Commas (l : Separated α) : Prop :=
  l.Joined (· = .symbol .comma) ∧ l.endsDelimited = false

/-- One item or more, with commas between them. -/
def Listed (l : Separated α) : Prop :=
  l.Joined (· = .symbol .comma) ∧ l.lacksDelimiter = true

lemma Listed.commas {l : Separated α} (h : l.Listed) : l.Commas := by
  refine ⟨h.1, ?_⟩
  have hlast := h.2
  unfold lacksDelimiter at hlast
  unfold endsDelimited
  cases hp : l.pairs.getLast? <;> simp_all

/-- Every item has a delimiter after it. -/
def Delimited (l : Separated α) : Prop := ∀ pair ∈ l.pairs, pair.delimiter.isSome

lemma lacksDelimiter_iff {l : Separated α} :
    l.lacksDelimiter = true ↔ ∃ front item, l.pairs = front ++ [⟨item, none⟩] := by
  unfold lacksDelimiter
  rw [Option.any_eq_true]
  constructor
  · rintro ⟨⟨item, delimiter⟩, hlast, hnone⟩
    obtain ⟨front, hpairs⟩ := List.getLast?_eq_some_iff.1 hlast
    simp only [Option.isNone_iff_eq_none] at hnone
    exact ⟨front, item, by rw [hpairs, hnone]⟩
  · rintro ⟨front, item, hpairs⟩
    exact ⟨_, by rw [hpairs, List.getLast?_concat], rfl⟩

lemma lacksDelimiter_push (l : Separated α) (item : α) : (l.push item).lacksDelimiter = true :=
  lacksDelimiter_iff.2 ⟨_, _, rfl⟩

lemma lacksDelimiter_delimit (l : Separated α) (delimiter : Token) :
    (l.delimit delimiter).lacksDelimiter = false := by
  unfold delimit
  split
  · simp [lacksDelimiter]
  · next hnone =>
    rcases hlast : l.pairs.getLast? with _ | ⟨item, _ | other⟩
    · simp [lacksDelimiter, hlast]
    · exact absurd hlast (hnone item)
    · simp [lacksDelimiter, hlast]

lemma endsDelimited_push (l : Separated α) (item : α) : (l.push item).endsDelimited = false := by
  simp [endsDelimited, push]

@[simp] lemma items_push (l : Separated α) (item : α) :
    (l.push item).items = l.items ++ [item] := by
  simp [items, push]

@[simp] lemma items_delimit (l : Separated α) (t : Token) : (l.delimit t).items = l.items := by
  unfold delimit
  split
  · next item hlast =>
    obtain ⟨front, hpairs⟩ := List.getLast?_eq_some_iff.1 hlast
    simp [items, hpairs]
  · rfl

@[simp] lemma parts_empty (node : α → Node) (anchor : Offset) :
    (empty anchor).parts node = [] := rfl

@[simp] lemma parts_push (node : α → Node) (l : Separated α) (item : α) :
    (l.push item).parts node = l.parts node ++ [Part.node (node item)] := by
  simp [parts, push]

lemma parts_delimit (node : α → Node) {l : Separated α} {t : Token}
    (h : l.lacksDelimiter = true) : (l.delimit t).parts node = l.parts node ++ [Part.token t] := by
  obtain ⟨front, item, hpairs⟩ := lacksDelimiter_iff.1 h
  simp [delimit, parts, hpairs]

section Joining

variable {kinds : TokenKind → Prop} {l : Separated α} {item : α} {t : Token}

lemma joined_empty {anchor : Offset} : (empty (α := α) anchor).Joined kinds :=
  ⟨by simp [empty], by simp [empty]⟩

lemma Joined.push (h : l.Joined kinds) (hall : l.Delimited) : (l.push item).Joined kinds where
  inner := by simpa [Separated.push, Delimited] using hall
  kind := by simpa [Separated.push, or_imp, forall_and] using h.kind

lemma Joined.delimit (h : l.Joined kinds) (hlacks : l.lacksDelimiter = true) (ht : kinds t.kind) :
    (l.delimit t).Joined kinds ∧ (l.delimit t).Delimited := by
  obtain ⟨front, item, hpairs⟩ := lacksDelimiter_iff.1 hlacks
  obtain ⟨hinner, hkind⟩ := h
  rw [hpairs] at hinner hkind
  have hdelimit : (l.delimit t).pairs = front ++ [⟨item, some t⟩] := by
    simp [Separated.delimit, hpairs]
  simp only [List.dropLast_concat] at hinner
  refine ⟨⟨?_, ?_⟩, ?_⟩
  · rwa [hdelimit, List.dropLast_concat]
  · rw [hdelimit]
    simp only [List.mem_append, or_imp, forall_and, List.mem_singleton, forall_eq] at hkind ⊢
    exact ⟨hkind.1, by simpa using ht⟩
  · rw [Delimited, hdelimit]
    simpa [or_imp, forall_and] using hinner

lemma listed_singleton {anchor : Offset} : ((empty anchor).push item).Listed :=
  ⟨joined_empty.push (by simp [Delimited, empty]), lacksDelimiter_push _ _⟩

lemma commas_empty {anchor : Offset} : (empty (α := α) anchor).Commas := ⟨joined_empty, rfl⟩

lemma Listed.delimit_push (h : l.Listed) (ht : t.kind = .symbol .comma) :
    ((l.delimit t).push item).Listed := by
  obtain ⟨hjoined, hall⟩ := h.1.delimit h.2 ht
  exact ⟨hjoined.push hall, lacksDelimiter_push _ _⟩

end Joining

end Separated

end LuaFront
