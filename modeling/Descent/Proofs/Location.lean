/-
# Where two spans lie

Seen from a span `b` of the same input, a span `a` lies where its ends say (`Lies`):

| answer | when |
| --- | --- |
| `before` | `a` ends where `b` starts, or earlier |
| `after` | `b` ends where `a` starts, or earlier, and `a` ends later than `b` starts |
| `within` | the spans meet, and `a` lies inside `b` |
| `encompasses` | the spans meet, and `b` lies inside `a` but `a` not inside `b` |
| none | the spans meet, and neither lies inside the other |

Spans meet when neither of them ends before the other one starts, or where it starts.  Spans that
share text meet, but one that meets another may also be empty and lie inside it.  The lines of the
table exclude one another, so `relativeTo` gives the answer whose line holds and no other
(`relativeTo_eq_iff`).

Read from the other side, a line becomes that of the converse answer (`Lies.converse`), with one
exception.  An empty span ends where it starts and so lies before itself, and each of two empty
spans at one place lies before the other, although they are the same stretch of the input
(`empty_spans_lie_before_each_other`).
-/

import Descent.Expr.Eval
import Mathlib.Tactic.SplitIfs

namespace Descent
namespace Span

/-- Where the second span lies, seen from the first one. -/
def Location.converse : Location → Location
  | before => after
  | after => before
  | within => encompasses
  | encompasses => within

/-- Byte `i` of the input belongs to the span. -/
def Covers (s : Span) (i : Nat) : Prop := s.start ≤ i ∧ i < s.stop

/-- Some of the input belongs to both spans. -/
def Shares (a b : Span) : Prop := ∃ i, a.Covers i ∧ b.Covers i

/-- Neither span ends before the other one starts, or where it starts. -/
def Meets (a b : Span) : Prop := b.start < a.stop ∧ a.start < b.stop

/-- What each answer says of the ends of `a` and `b`. -/
def Lies (a b : Span) : Option Location → Prop
  | some .before => a.stop ≤ b.start
  | some .after => b.stop ≤ a.start ∧ b.start < a.stop
  | some .within => a.Meets b ∧ b.contains a = true
  | some .encompasses => a.Meets b ∧ a.contains b = true ∧ ¬b.contains a = true
  | none => a.Meets b ∧ ¬a.contains b = true ∧ ¬b.contains a = true

variable {a b : Span}

/-- Two spans of one input with the same ends are one span. -/
theorem eq_iff (hinput : a.input = b.input) : a = b ↔ a.start = b.start ∧ a.stop = b.stop := by
  obtain ⟨input, start, stop⟩ := a
  obtain ⟨input', start', stop'⟩ := b
  obtain rfl : input = input' := hinput
  simp

theorem contains_iff (hinput : a.input = b.input) :
    a.contains b = true ↔ a.start ≤ b.start ∧ b.stop ≤ a.stop := by
  simp [contains, hinput]

theorem Shares.meets (h : a.Shares b) : a.Meets b := by
  obtain ⟨i, ⟨hai, hia⟩, hbi, hib⟩ := h
  constructor <;> omega

/-- Spans that meet share text, unless one of them lies inside the other. -/
theorem Meets.shares (h : a.Meets b) (hinput : a.input = b.input) (ha : ¬a.contains b = true)
    (hb : ¬b.contains a = true) : a.Shares b := by
  obtain ⟨hleft, hright⟩ := h
  rw [contains_iff hinput] at ha
  rw [contains_iff hinput.symm] at hb
  refine ⟨max a.start b.start, ⟨?_, ?_⟩, ?_, ?_⟩ <;> omega

/-! ## The answers -/

/-- **The answer is that of a line of the table.** -/
theorem lies_relativeTo (hinput : a.input = b.input) (ha : a.start ≤ a.stop) :
    a.Lies b (a.relativeTo b) := by
  unfold relativeTo
  rw [if_neg (not_not_intro hinput)]
  split_ifs with hbefore hafter hwithin hencompasses
  · exact hbefore.2
  · exact ⟨hafter, by omega⟩
  · exact ⟨⟨by omega, by omega⟩, (contains_iff hinput.symm).2 hwithin⟩
  · exact ⟨⟨by omega, by omega⟩, (contains_iff hinput).2 hencompasses,
      mt (contains_iff hinput.symm).1 hwithin⟩
  · exact ⟨⟨by omega, by omega⟩, mt (contains_iff hinput).1 hencompasses,
      mt (contains_iff hinput.symm).1 hwithin⟩

theorem Lies.relativeTo_eq {l : Option Location} (h : a.Lies b l) (hinput : a.input = b.input)
    (ha : a.start ≤ a.stop) : a.relativeTo b = l := by
  unfold relativeTo
  rw [if_neg (not_not_intro hinput)]
  match l, h with
  | some .before, h =>
    have hends : a.stop ≤ b.start := h
    rw [if_pos ⟨by omega, hends⟩]
  | some .after, ⟨hends, hlate⟩ => rw [if_neg (by omega), if_pos hends]
  | some .within, ⟨⟨hleft, hright⟩, hinside⟩ =>
    rw [if_neg (by omega), if_neg (by omega), if_pos ((contains_iff hinput.symm).1 hinside)]
  | some .encompasses, ⟨⟨hleft, hright⟩, hinside, hother⟩ =>
    rw [if_neg (by omega), if_neg (by omega), if_neg (mt (contains_iff hinput.symm).2 hother),
      if_pos ((contains_iff hinput).1 hinside)]
  | none, ⟨⟨hleft, hright⟩, hother, hother'⟩ =>
    rw [if_neg (by omega), if_neg (by omega), if_neg (mt (contains_iff hinput.symm).2 hother'),
      if_neg (mt (contains_iff hinput).2 hother)]

/-- **The answer is the one whose line of the table holds.** -/
theorem relativeTo_eq_iff (hinput : a.input = b.input) (ha : a.start ≤ a.stop)
    {l : Option Location} : a.relativeTo b = l ↔ a.Lies b l := by
  constructor
  · rintro rfl
    exact lies_relativeTo hinput ha
  · intro h
    exact h.relativeTo_eq hinput ha

/-- **Read from the other side, an answer is its converse,** unless the spans are the same. -/
theorem Lies.converse {l : Option Location} (h : a.Lies b l) (hinput : a.input = b.input)
    (ha : a.start ≤ a.stop) (hb : b.start ≤ b.stop) (hne : a ≠ b) :
    b.Lies a (l.map Location.converse) := by
  rw [ne_eq, eq_iff hinput] at hne
  match l, h with
  | some .before, h =>
    have hends : a.stop ≤ b.start := h
    exact ⟨hends, by omega⟩
  | some .after, ⟨hends, _⟩ => exact hends
  | some .within, ⟨⟨hleft, hright⟩, hinside⟩ =>
    have hother : ¬a.contains b = true := by
      rw [contains_iff hinput.symm] at hinside
      rw [contains_iff hinput]
      omega
    exact ⟨⟨hright, hleft⟩, hinside, hother⟩
  | some .encompasses, ⟨⟨hleft, hright⟩, hinside, _⟩ => exact ⟨⟨hright, hleft⟩, hinside⟩
  | none, ⟨⟨hleft, hright⟩, hother, hother'⟩ => exact ⟨⟨hright, hleft⟩, hother', hother⟩

/-- A span lies within itself if it holds some text, and before itself if it is empty. -/
theorem relativeTo_self (ha : a.start ≤ a.stop) :
    a.relativeTo a = some (if a.isEmpty then .before else .within) := by
  rw [relativeTo_eq_iff rfl ha]
  split
  · rename_i hempty
    have hends : a.start = a.stop := by simpa [isEmpty] using hempty
    exact Nat.le_of_eq hends.symm
  · rename_i hfull
    have hends : a.start ≠ a.stop := by simpa [isEmpty] using hfull
    exact ⟨⟨by omega, by omega⟩, (contains_iff rfl).2 ⟨Nat.le_refl _, Nat.le_refl _⟩⟩

/-- **Two spans of one input lie as their ends say.**  The same stretch lies within itself if it
holds some text, and before itself if it is empty; the answers for two stretches are converse to
each other.  A span that lies before another ends where that one starts, or earlier, and the other
way round for one that lies after it.  There is no answer just when the spans share text and
neither contains the other; and where they share text, the first lies within the second when it is
contained in it, and encompasses the second when it contains it and is not the same. -/
theorem relativeTo_classifies (hinput : a.input = b.input) (ha : a.start ≤ a.stop)
    (hb : b.start ≤ b.stop) :
    (a = b → a.relativeTo b = some (if a.isEmpty then .before else .within)) ∧
      (a ≠ b → b.relativeTo a = (a.relativeTo b).map Location.converse) ∧
      (a.relativeTo b = some .before → a.stop ≤ b.start) ∧
      (a.relativeTo b = some .after → b.stop ≤ a.start) ∧
      (a.relativeTo b = none ↔ a.Shares b ∧ ¬a.contains b = true ∧ ¬b.contains a = true) ∧
      (a.Shares b →
        (a.relativeTo b = some .within ↔ b.contains a = true) ∧
        (a.relativeTo b = some .encompasses ↔ a.contains b = true ∧ a ≠ b)) := by
  have hiff (l : Option Location) : a.relativeTo b = l ↔ a.Lies b l := relativeTo_eq_iff hinput ha
  refine ⟨?same, ?converse, fun h => (hiff _).1 h, fun h => ((hiff _).1 h).1, ?none, fun hshares => ?_⟩
  case same =>
    rintro rfl
    exact relativeTo_self ha
  case converse =>
    intro hne
    have hlies : a.Lies b (a.relativeTo b) := lies_relativeTo hinput ha
    exact (hlies.converse hinput ha hb hne).relativeTo_eq hinput.symm hb
  case none =>
    rw [hiff]
    constructor
    · rintro ⟨hmeets, hleft, hright⟩
      exact ⟨hmeets.shares hinput hleft hright, hleft, hright⟩
    · rintro ⟨hshares, hleft, hright⟩
      exact ⟨hshares.meets, hleft, hright⟩
  have hmeets : a.Meets b := hshares.meets
  constructor
  · rw [hiff]
    exact and_iff_right hmeets
  · have hsame : a.contains b = true → (a = b ↔ b.contains a = true) := by
      rw [eq_iff hinput, contains_iff hinput, contains_iff hinput.symm]
      omega
    rw [hiff]
    constructor
    · rintro ⟨-, hcontains, hother⟩
      exact ⟨hcontains, mt (hsame hcontains).1 hother⟩
    · rintro ⟨hcontains, hne⟩
      exact ⟨hmeets, hcontains, mt (hsame hcontains).2 hne⟩

/-- A span within a longer one, an empty span between its characters, and a third that overlaps
the longer one: the hypotheses of `relativeTo_classifies` are satisfiable, also where there is no
answer. -/
theorem relativeTo_classifies_overlap :
    let a : Span := ⟨"hello world".toList, 0, 5⟩
    let b : Span := ⟨"hello world".toList, 3, 7⟩
    let c : Span := ⟨"hello world".toList, 3, 5⟩
    let e : Span := ⟨"hello world".toList, 4, 4⟩
    a.relativeTo a = some .within ∧ e.relativeTo e = some .before ∧
      (a ≠ b ∧ b.relativeTo a = (a.relativeTo b).map Location.converse) ∧
      (a.Shares b ∧ ¬a.contains b = true ∧ ¬b.contains a = true ∧ a.relativeTo b = none) ∧
      (c.Shares a ∧ a.contains c = true ∧ c.relativeTo a = some .within) ∧
      (a ≠ e ∧ ¬a.Shares e ∧ e.relativeTo a = (a.relativeTo e).map Location.converse) := by
  intro a b c e
  have hab := relativeTo_classifies (a := a) (b := b) rfl (by decide) (by decide)
  have hae := relativeTo_classifies (a := a) (b := e) rfl (by decide) (by decide)
  have hca := relativeTo_classifies (a := c) (b := a) rfl (by decide) (by decide)
  have hshares : a.Shares b := ⟨3, ⟨by decide, by decide⟩, by decide, by decide⟩
  have hinside : c.Shares a := ⟨3, ⟨by decide, by decide⟩, by decide, by decide⟩
  have hapart : ¬a.Shares e := by
    rintro ⟨i, -, hleft, hright⟩
    exact absurd (Nat.lt_of_le_of_lt hleft hright) (by decide)
  have hne : a ≠ b := fun h => absurd (congrArg start h) (by decide)
  have hne' : a ≠ e := fun h => absurd (congrArg start h) (by decide)
  exact ⟨(relativeTo_classifies (a := a) rfl (by decide) (by decide)).1 rfl,
    (relativeTo_classifies (a := e) rfl (by decide) (by decide)).1 rfl,
    ⟨hne, hab.2.1 hne⟩,
    ⟨hshares, by decide, by decide, hab.2.2.2.2.1.2 ⟨hshares, by decide, by decide⟩⟩,
    ⟨hinside, by decide, (hca.2.2.2.2.2 hinside).1.2 (by decide)⟩,
    hne', hapart, hae.2.1 hne'⟩

/-- **The same stretch need not lie within itself.**  Two rules in a row that match nothing leave
two nodes at one place, and the span of each lies before that of the other. -/
theorem empty_spans_lie_before_each_other :
    let nothing : Expr Unit 0 := .rule () .succeed
    let body : Expr Unit 0 := .chain [.pattern (.character 'a'), nothing, nothing]
    ∃ (t : State Unit) (n m : Node Unit),
      Expr.body Fin.elim0 body (.start "ab".toList .standard) = some (.matched t) ∧
        t.nodes = [n, m] ∧ n.span = m.span ∧ n.span.relativeTo m.span = some .before ∧
        m.span.relativeTo n.span = some .before ∧ n.span.relativeTo m.span ≠ some .within := by
  intro nothing body
  exact ⟨_, _, _, rfl, rfl, rfl, rfl, rfl, by decide⟩

end Span
end Descent
