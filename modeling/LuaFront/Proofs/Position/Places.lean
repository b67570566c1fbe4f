import LuaFront.Proofs.Position.Lines
import Mathlib.Order.Bounds.Basic

/-!
Editor places. The place of an offset is what one counts on the way to it: line feeds, and the
UTF-16 units since the last of them. On the boundaries of a text this loses nothing and keeps the
order. A place that is none of a boundary stands for the next one on its line, or for the line's
end.
-/

namespace LuaFront

open Text

namespace Place

/-- Earlier in the text. -/
def Before (p q : Place) : Prop := p.line < q.line ∨ p.line = q.line ∧ p.character < q.character

/-- The place after a character. -/
def next (p : Place) (c : Char) : Place :=
  if c = '\n' then ⟨p.line + 1, 0⟩ else ⟨p.line, p.character + unitsOf c⟩

/-- The place at which a front of a text ends. -/
def after (front : List Char) : Place := front.foldl next ⟨0, 0⟩

variable {p q r : Place} {front : List Char}

lemma Before.trans (h : p.Before q) (h' : q.Before r) : p.Before r := by
  unfold Before at *
  omega

lemma before_next (p : Place) (c : Char) : p.Before (p.next c) := by
  have hpos := unitsOf_pos c
  unfold next Before
  split <;> simp [hpos]

lemma before_foldl (p : Place) (c : Char) (cs : List Char) : p.Before ((c :: cs).foldl next p) := by
  induction cs generalizing p c with
  | nil => exact before_next p c
  | cons d cs ih => exact (before_next p c).trans (ih (p.next c) d)

/-- What comes later in a text has a later place. -/
lemma after_before (front : List Char) (c : Char) (mid : List Char) :
    (after front).Before (after (front ++ c :: mid)) := by
  rw [after, after, List.foldl_append]
  exact before_foldl _ c mid

/-! ### Places of a line -/

lemma foldl_line (p : Place) {part : List Char} (h : '\n' ∉ part) :
    part.foldl next p = ⟨p.line, p.character + unitSize part⟩ := by
  induction part generalizing p with
  | nil => rfl
  | cons c part ih =>
    have hc : c ≠ '\n' := fun hc => h (by simp [hc])
    rw [List.foldl_cons, ih _ fun hmem => h (List.mem_cons_of_mem c hmem), next, if_neg hc,
      unitSize]
    simp only [Nat.add_assoc]

lemma line_foldl (p : Place) (front : List Char) :
    (front.foldl next p).line = p.line + front.count '\n' := by
  induction front generalizing p with
  | nil => rfl
  | cons c front ih =>
    rw [List.foldl_cons, ih, next, List.count_cons]
    split
    · simp_all
      omega
    · simp_all

/-- The place on a line is the number of the line and the units before it on the line. -/
lemma after_eq {cs before line rest part back : List Char} {number : Nat}
    (h : IsLine cs number before line rest) (hline : line = part ++ back) :
    after (before ++ part) = ⟨number, unitSize part⟩ := by
  have hpart : '\n' ∉ part := fun hmem => h.line (hline ▸ List.mem_append_left back hmem)
  have hbefore : after before = ⟨number, 0⟩ := by
    have hnumber : (after before).line = number := by rw [after, line_foldl, h.number, Nat.zero_add]
    rcases hlast : before.getLast? with _ | c
    · rw [List.getLast?_eq_none_iff] at hlast
      subst hlast
      rw [← hnumber]
      rfl
    · obtain ⟨pre, rfl⟩ := List.getLast?_eq_some_iff.1 hlast
      obtain rfl : c = '\n' := h.before c hlast
      rw [← hnumber, after, List.foldl_append]
      rfl
  rw [after, List.foldl_append, ← after, hbefore, foldl_line _ hpart, Nat.zero_add]

end Place

namespace LineTable

variable {source : String} {front back : List Char}

/-! ### From offsets to places -/

/-- The line of an offset is the line of the character that it is in. -/
lemma lineCol?_eq {start offset : Nat} (hsource : source.toList = front ++ back)
    (hin : In front back offset)
    (hstart : (ofSource source).lineStart? (front.count '\n') = some start) :
    (ofSource source).lineCol? offset = some ⟨front.count '\n', offset - start⟩ := by
  have hfront : ∀ b : Nat, b ∈ breaksFrom 0 front → b < offset := by
    intro b hb
    have hbound := (breaksFrom_bounds hb).2
    rcases hin with hin | ⟨c, rest, -, hlo, -⟩ <;> omega
  have hback : ∀ b : Nat, b ∈ breaksFrom (byteSize front) back → ¬ b < offset := by
    intro b hb
    rcases hin with hin | ⟨c, rest, rfl, hlo, hhi⟩
    · have hbound := (breaksFrom_bounds hb).1
      omega
    · have hc : c ≠ '\n' := by
        rintro rfl
        have hfeed : '\n'.utf8Size = 1 := rfl
        omega
      rw [breaksFrom, if_neg hc] at hb
      have hbound := (breaksFrom_bounds hb).1
      omega
  have hcount : (ofSource source).breaks.countP (· < offset) = front.count '\n' := by
    rw [ofSource, hsource, breaksFrom_append, Nat.zero_add, List.countP_append,
      List.countP_eq_length.2 (by simpa using hfront), List.countP_eq_zero.2 (by simpa using hback),
      length_breaksFrom, Nat.add_zero]
  have hsize : ¬ (ofSource source).size < offset := by
    have hle : offset ≤ byteSize (front ++ back) := by
      rw [byteSize_append]
      rcases hin with hin | ⟨c, rest, rfl, hlo, hhi⟩
      · omega
      · rw [byteSize]
        omega
    simpa [ofSource, hsource] using hle
  rw [lineCol?, if_neg hsize, hcount]
  dsimp only
  rw [hstart]
  rfl

lemma boundaryBelow_eq {cs : List Char} {start stop : Nat} {above : Nat}
    (hstop : isBoundary cs stop = true) (hlo : start ≤ stop) (hhi : stop ≤ start + above)
    (hnone : ∀ offset, stop < offset → offset ≤ start + above → isBoundary cs offset = false) :
    boundaryBelow cs start above = stop := by
  induction above with
  | zero => exact Nat.le_antisymm hlo hhi
  | succ above ih =>
    rw [boundaryBelow]
    by_cases heq : stop = start + above + 1
    · rw [← heq, hstop, if_pos rfl]
    · have hlast : isBoundary cs (start + above + 1) = false :=
        hnone _ (by omega) (by omega)
      rw [hlast, if_neg Bool.false_ne_true]
      exact ih (by omega) fun offset h h' => hnone offset h (by omega)

/-- **The place of an offset** counts the line feeds before the character that the offset is in, and
the units since the last of them. -/
theorem toPlace?_eq {offset : Nat} (hsource : source.toList = front ++ back)
    (hin : In front back offset) :
    (ofSource source).toPlace? source offset = some (.after front) := by
  obtain ⟨before, part, rest, after, rfl, rfl, hline⟩ := exists_isLine front back
  rw [← hsource] at hline
  have hstart := lineStart?_eq hline
  have hcol := lineCol?_eq hsource hin hstart
  have hle : byteSize (before ++ part) ≤ offset := by
    rcases hin with hin | ⟨c, _, -, hlo, -⟩ <;> omega
  have hbelow : boundaryBelow source.toList (byteSize before) (offset - byteSize before)
      = byteSize (before ++ part) := by
    rw [byteSize_append] at hle
    refine boundaryBelow_eq ?_ (by simp) (by rw [byteSize_append]; omega) ?_
    · rw [hsource]
      exact isBoundary_byteSize _ _
    · intro mid hmid hmid'
      rcases hin with hin | ⟨c, back, hback, hlo, hhi⟩
      · omega
      · rw [hsource, hback]
        exact not_isBoundary hmid (by omega)
  have hslice : slice? source.toList (byteSize before) (byteSize (before ++ part)) = some part := by
    rw [hsource]
    exact slice?_eq before part _
  rw [toPlace?, hcol, Place.after_eq hline rfl]
  simp only [Option.bind_eq_bind, Option.bind_some, hstart, hbelow, hslice]
  rfl

/-! ### From places to offsets -/

/-- The front of a line whose size is found for a column: the first one of at least so many
units. -/
lemma exists_front (line : List Char) (units : Nat) :
    ∃ front back, line = front ++ back
      ∧ (bytesBefore? line units).getD (byteSize line) = byteSize front
      ∧ (∀ part c rest, front = part ++ c :: rest → unitSize part < units)
      ∧ (back ≠ [] → units ≤ unitSize front) := by
  induction line generalizing units with
  | nil => exact ⟨[], [], rfl, rfl, by simp, by simp⟩
  | cons c line ih =>
    rw [bytesBefore?]
    split
    · next hzero => exact ⟨[], c :: line, rfl, rfl, by simp, by simp [hzero]⟩
    · next hne =>
      obtain ⟨front, back, rfl, hsize, hfirst, hlast⟩ := ih (units - unitsOf c)
      have hc := unitsOf_pos c
      refine ⟨c :: front, back, rfl, ?_, ?_, fun hback => ?_⟩
      · have hcons : byteSize (c :: front) = c.utf8Size + byteSize front := rfl
        rw [hcons, ← hsize, byteSize]
        cases bytesBefore? (front ++ back) (units - unitsOf c) <;> rfl
      · rintro (_ | ⟨d, part⟩) e rest heq
        · simpa [unitSize] using Nat.pos_of_ne_zero hne
        · cases heq
          have hlt := hfirst part e rest rfl
          rw [unitSize]
          omega
      · have hle := hlast hback
        rw [unitSize]
        omega

/-- The boundaries of a line at which the editor column is no smaller than that of a place. -/
def fromColumn (t : LineTable) (source : String) (place : Place) : Set Offset :=
  {offset | isBoundary source.toList offset = true
    ∧ (∃ start ∈ t.lineStart? place.line, start ≤ offset)
    ∧ (∃ stop ∈ t.lineEnd? place.line, offset ≤ stop)
    ∧ ∃ units, place.character ≤ units
      ∧ t.toPlace? source offset = some ⟨place.line, units⟩}

section Line

variable {place : Place} {before line rest : List Char}
  (h : IsLine source.toList place.line before line rest)
include h

/-- The offset of a place is that of a front of its line. -/
lemma exists_ofPlace? : ∃ part back, line = part ++ back
    ∧ (ofSource source).ofPlace? source place = some (byteSize (before ++ part))
    ∧ (∀ part' c mid, part = part' ++ c :: mid → unitSize part' < place.character)
    ∧ (back ≠ [] → place.character ≤ unitSize part) := by
  obtain ⟨part, back, hline, hsize, hfirst, hlast⟩ := exists_front line place.character
  refine ⟨part, back, hline, ?_, hfirst, hlast⟩
  have hslice : slice? source.toList (byteSize before) (byteSize (before ++ line)) = some line := by
    rw [h.split]
    exact slice?_eq before line rest
  have hoffset : ((bytesBefore? line place.character).map (byteSize before + ·)).getD
      (byteSize (before ++ line)) = byteSize (before ++ part) := by
    rw [byteSize_append, byteSize_append, ← hsize]
    cases bytesBefore? line place.character <;> rfl
  simp only [ofPlace?, lineStart?_eq h, lineEnd?_eq h, Option.bind_eq_bind, Option.bind_some,
    hslice]
  exact congrArg some hoffset

/-- The boundaries of a line from a column on are those of its fronts with enough units. -/
lemma mem_fromColumn_iff {offset : Nat} :
    offset ∈ (ofSource source).fromColumn source place ↔
      ∃ part back, line = part ++ back ∧ offset = byteSize (before ++ part)
        ∧ place.character ≤ unitSize part := by
  have hplace : ∀ part back, line = part ++ back → (ofSource source).toPlace? source
      (byteSize (before ++ part)) = some ⟨place.line, unitSize part⟩ := by
    rintro part back hline
    have hsource : source.toList = (before ++ part) ++ (back ++ rest) := by
      rw [h.split, hline]
      simp
    rw [toPlace?_eq hsource (.inl rfl), Place.after_eq h hline]
  constructor
  · rintro ⟨hboundary, ⟨start, hstart, hlo⟩, ⟨stop, hstop, hhi⟩, units, hunits, hcolumn⟩
    rw [lineStart?_eq h, Option.mem_some_iff] at hstart
    rw [lineEnd?_eq h, Option.mem_some_iff] at hstop
    subst hstart hstop
    obtain ⟨front, back, hsource, rfl⟩ := isBoundary_iff.1 hboundary
    have hsplit : before ++ (line ++ rest) = front ++ back := by
      rw [← hsource, h.split, List.append_assoc]
    obtain ⟨part, rfl, htail⟩ := exists_mid hsplit hlo
    obtain ⟨mid, rfl, -⟩ := exists_mid htail.symm (by simpa using hhi)
    refine ⟨part, mid, rfl, rfl, ?_⟩
    rw [hplace part mid rfl] at hcolumn
    cases hcolumn
    exact hunits
  · rintro ⟨part, back, hline, rfl, hunits⟩
    refine ⟨?_, ⟨_, lineStart?_eq h, by simp⟩, ⟨_, lineEnd?_eq h, by simp [hline]⟩,
      _, hunits, hplace part back hline⟩
    rw [h.split, hline]
    simpa using isBoundary_byteSize (before ++ part) (back ++ rest)

/-- **The offset of a place** is the first boundary on its line from its column on, or the end of
the line. -/
lemma ofPlace?_least : ∃ offset, (ofSource source).ofPlace? source place = some offset
    ∧ (IsLeast ((ofSource source).fromColumn source place) offset
      ∨ (ofSource source).fromColumn source place = ∅
        ∧ (ofSource source).lineEnd? place.line = some offset) := by
  obtain ⟨part, back, hline, hoffset, hfirst, hlast⟩ := exists_ofPlace? h
  -- The fronts of the line with enough units are no shorter than the one that is found.
  have hlower : ∀ front tail, line = front ++ tail → place.character ≤ unitSize front →
      byteSize part ≤ byteSize front := by
    intro front tail hfront hunits
    by_contra hlt
    obtain ⟨_ | ⟨c, mid⟩, hpart, -⟩ := exists_mid (hfront.symm.trans hline) (by omega)
    · simp [hpart] at hlt
    · have := hfirst front c mid hpart
      omega
  refine ⟨_, hoffset, ?_⟩
  by_cases hunits : place.character ≤ unitSize part
  · refine .inl ⟨(mem_fromColumn_iff h).2 ⟨part, back, hline, rfl, hunits⟩, ?_⟩
    intro offset hmem
    obtain ⟨front, tail, hfront, rfl, hle⟩ := (mem_fromColumn_iff h).1 hmem
    simpa using hlower front tail hfront hle
  · have hback : back = [] := by
      by_contra hne
      exact hunits (hlast hne)
    subst hback
    rw [List.append_nil] at hline
    refine .inr ⟨Set.eq_empty_iff_forall_notMem.2 fun offset hmem => hunits ?_, ?_⟩
    · obtain ⟨front, tail, hfront, rfl, hle⟩ := (mem_fromColumn_iff h).1 hmem
      rw [← hline, hfront, unitSize_append]
      omega
    · rw [← hline]
      exact lineEnd?_eq h

end Line

/-- The offset of the place of a boundary is that boundary. -/
lemma ofPlace?_after (hsource : source.toList = front ++ back) :
    (ofSource source).ofPlace? source (.after front) = some (byteSize front) := by
  obtain ⟨before, part, rest, after, rfl, rfl, hline⟩ := exists_isLine front back
  rw [← hsource] at hline
  have hplace := Place.after_eq hline rfl
  have hline' : IsLine source.toList (Place.after (before ++ part)).line before (part ++ rest)
      after := by rwa [hplace]
  obtain ⟨found, tail, hfound, hoffset, hfirst, hlast⟩ := exists_ofPlace? hline'
  have hunits : (Place.after (before ++ part)).character = unitSize part := by rw [hplace]
  rw [hunits] at hfirst hlast
  have heq : found = part := by
    rcases Nat.le_total (byteSize found) (byteSize part) with hle | hle
    · obtain ⟨_ | ⟨c, mid⟩, hpart, htail⟩ := exists_mid hfound.symm hle
      · rw [hpart, List.append_nil]
      · have hle := hlast (by simp [htail])
        have hpos := unitsOf_pos c
        rw [hpart, unitSize_append, unitSize] at hle
        omega
    · obtain ⟨_ | ⟨c, mid⟩, hpart, -⟩ := exists_mid hfound hle
      · rw [hpart, List.append_nil]
      · exact absurd (hfirst part c mid hpart) (Nat.lt_irrefl _)
  rw [hoffset, heq]

/-- A place between two on one line stands for an offset between theirs. -/
lemma ofPlace?_between {mid : List Char} {place : Place}
    (hsource : source.toList = front ++ mid ++ back) (hmid : '\n' ∉ mid)
    (hlo : ¬ place.Before (.after front)) (hhi : ¬ (Place.after (front ++ mid)).Before place) :
    ∃ offset, (ofSource source).ofPlace? source place = some offset
      ∧ byteSize front ≤ offset ∧ offset ≤ byteSize (front ++ mid) := by
  obtain ⟨before, part, rest, after, rfl, hback, hline⟩ := exists_isLine front (mid ++ back)
  rw [← List.append_assoc, ← hsource] at hline
  -- The line goes on at least to the end of `mid`.
  obtain ⟨rest, rfl⟩ : ∃ tail, rest = mid ++ tail := by
    obtain ⟨tail, hrest, -⟩ | ⟨_ | ⟨c, tail⟩, hmid', hafter⟩ := List.append_eq_append_iff.1 hback
    · exact ⟨tail, hrest⟩
    · exact ⟨[], by rw [hmid', List.append_nil, List.append_nil]⟩
    · have hc : c = '\n' := hline.after c (by simp [hafter])
      exact absurd (by simp [hmid', hc]) hmid
  have hstart := Place.after_eq hline rfl
  have hstop := Place.after_eq hline (List.append_assoc part mid rest).symm
  rw [← List.append_assoc] at hstop
  rw [hstart] at hlo
  rw [hstop] at hhi
  simp only [Place.Before] at hlo hhi
  have hnumber : place.line = (before ++ part).count '\n' := by omega
  rw [← hnumber] at hline
  obtain ⟨found, tail, hfound, hoffset, hfirst, hlast⟩ := exists_ofPlace? hline
  refine ⟨_, hoffset, ?_, ?_⟩
  · by_contra hlt
    have hle : byteSize found ≤ byteSize part := by
      simp only [byteSize_append] at hlt
      omega
    obtain ⟨_ | ⟨c, mid'⟩, rfl, htail⟩ := exists_mid hfound.symm hle
    · simp at hlt
    · have hle := hlast (by simp [htail])
      have hc := unitsOf_pos c
      rw [unitSize_append, unitSize] at hlo
      omega
  · by_contra hlt
    have hsplit : part ++ mid ++ rest = found ++ tail := by rw [← hfound, List.append_assoc]
    have hle : byteSize (part ++ mid) ≤ byteSize found := by
      have hlt := Nat.not_le.1 hlt
      simp only [byteSize_append] at hlt ⊢
      omega
    obtain ⟨_ | ⟨c, mid'⟩, rfl, -⟩ := exists_mid hsplit hle
    · simp at hlt
    · have hlt := hfirst (part ++ mid) c mid' rfl
      omega

/-- Later boundaries have later places. -/
lemma before_of_toPlace? {offset offset' : Offset} {place place' : Place}
    (hboundary : isBoundary source.toList offset = true)
    (hboundary' : isBoundary source.toList offset' = true) (hlt : offset < offset')
    (heq : (ofSource source).toPlace? source offset = some place)
    (heq' : (ofSource source).toPlace? source offset' = some place') : place.Before place' := by
  obtain ⟨front, back, hsource, rfl⟩ := isBoundary_iff.1 hboundary
  obtain ⟨front', back', hsource', rfl⟩ := isBoundary_iff.1 hboundary'
  rw [toPlace?_eq hsource (.inl rfl)] at heq
  rw [toPlace?_eq hsource' (.inl rfl)] at heq'
  cases heq
  cases heq'
  obtain ⟨_ | ⟨c, mid⟩, rfl, -⟩ := exists_mid (hsource.symm.trans hsource') (Nat.le_of_lt hlt)
  · simp at hlt
  · exact Place.after_before front c mid

/-- An offset inside of a character has the place of that character. -/
lemma toPlace?_inside {offset : Offset} (hle : offset ≤ byteSize source.toList)
    (hboundary : isBoundary source.toList offset = false) :
    ∃ front c back, source.toList = front ++ c :: back ∧ byteSize front < offset
      ∧ offset < byteSize front + c.utf8Size
      ∧ (ofSource source).toPlace? source offset
        = (ofSource source).toPlace? source (byteSize front) := by
  obtain ⟨front, back, hsource, hin⟩ := exists_in hle
  have heq : (ofSource source).toPlace? source offset
      = (ofSource source).toPlace? source (byteSize front) := by
    rw [toPlace?_eq hsource hin, toPlace?_eq hsource (.inl rfl)]
  rcases hin with rfl | ⟨c, rest, rfl, hlo, hhi⟩
  · rw [isBoundary_iff.2 ⟨front, back, hsource, rfl⟩] at hboundary
    cases hboundary
  · exact ⟨front, c, rest, hsource, hlo, hhi, heq⟩

/-- A place stands for no offset just if its line is missing. -/
lemma ofPlace?_eq_none_iff {place : Place} :
    (ofSource source).ofPlace? source place = none
      ↔ (ofSource source).lineCount ≤ place.line := by
  constructor
  · intro hnone
    by_contra hlt
    obtain ⟨before, line, rest, hline⟩ := exists_line (Nat.not_le.1 hlt)
    obtain ⟨offset, hsome, -⟩ := ofPlace?_least hline
    rw [hnone] at hsome
    cases hsome
  · intro hle
    have hend : (ofSource source).lineEnd? place.line = none := by
      rw [lineEnd?, if_neg (Nat.not_lt.2 hle)]
    rw [ofPlace?, hend]
    cases (ofSource source).lineStart? place.line <;> rfl

/-- **Offsets and places correspond**: the place of a boundary counts the line feeds before it and
the units since the last of them; it leads back to the boundary, and later boundaries have later
places. An offset inside of a character has that character's place. A place stands for the first
boundary on its line from its column on, or for the end of the line if there is none, and for no
offset just if the line is missing. -/
theorem places_correspond (source : String) :
    let t := ofSource source
    let cs := source.toList
    (∀ front back, cs = front ++ back →
        t.toPlace? source (byteSize front) = some (.after front))
      ∧ (∀ offset, isBoundary cs offset = true →
        ∃ place, t.toPlace? source offset = some place ∧ t.ofPlace? source place = some offset)
      ∧ (∀ offset offset' place place', isBoundary cs offset = true →
        isBoundary cs offset' = true → offset < offset' → t.toPlace? source offset = some place →
        t.toPlace? source offset' = some place' → place.Before place')
      ∧ (∀ offset ≤ byteSize cs, isBoundary cs offset = false →
        ∃ front c back, cs = front ++ c :: back ∧ byteSize front < offset
          ∧ offset < byteSize front + c.utf8Size
          ∧ t.toPlace? source offset = t.toPlace? source (byteSize front))
      ∧ (∀ place, place.line < t.lineCount →
        ∃ offset, t.ofPlace? source place = some offset
          ∧ (IsLeast (t.fromColumn source place) offset
            ∨ t.fromColumn source place = ∅ ∧ t.lineEnd? place.line = some offset))
      ∧ ∀ place, t.ofPlace? source place = none ↔ t.lineCount ≤ place.line := by
  intro t cs
  have hplace : ∀ front back, cs = front ++ back →
      t.toPlace? source (byteSize front) = some (.after front) := fun front back hsource =>
    toPlace?_eq hsource (.inl rfl)
  refine ⟨hplace, ?_, fun _ _ _ _ => before_of_toPlace?, fun _ => toPlace?_inside, ?_,
    fun _ => ofPlace?_eq_none_iff⟩
  · intro offset hboundary
    obtain ⟨front, back, hsource, rfl⟩ := isBoundary_iff.1 hboundary
    exact ⟨_, hplace front back hsource, ofPlace?_after hsource⟩
  · intro place hlt
    obtain ⟨before, line, rest, hline⟩ := exists_line hlt
    exact ofPlace?_least hline

end LineTable

end LuaFront
