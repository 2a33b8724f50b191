/-
# What each operator can answer

Every operator of rule bodies runs its parts and then does one of a few things.
For each of them one lemma lists these, with the guards under which they happen:

| operator | answers |
| --- | --- |
| `andThen a b` | as `b` where `a` matched, or where `a` failed |
| `orElse a b` | as `b` where `a` failed, or where `a` matched |
| `sequence a` | where `a` matched, or rolled back |
| `alternative a b` | at once when given up, or as `sequence a` or else `b` |
| `repeated bounds a` | given up, where the occurrences end, or rolled back |
| `rule tag a` | at once, given up, with a node, or with nothing |

A repetition takes one occurrence at a time (`Loop`), so what one keeps they all keep
(`Loop.keeps`).  A property of bodies that no operator loses is `Closed`, and holds of
every expression at every depth of references (`Closed.eval`).
-/

import Descent.Expr.Eval
import Descent.Proofs.Taking

namespace Descent
namespace Body

variable {R : Type} {a b : Body R} {s : State R} {o : Outcome R}

/-- A pattern is tried unless the parse is given up, and notes where it does not stand. -/
theorem pattern_eq (p : Pattern) (s : State R) :
    pattern p s =
      if s.isAborted then some (.failed s)
      else match p.match? s.cursor with
        | some cursor => some (.matched { s with cursor })
        | none => some (.failed s.recordFailure) := by
  rw [pattern, Pattern.matchAt_eq]
  cases p.match? s.cursor <;> rfl

theorem pattern_eq_some {p : Pattern} (h : pattern p s = some o) :
    (s.isAborted = true ∧ o = .failed s) ∨
      (s.isAborted = false ∧ ∃ cursor, p.match? s.cursor = some cursor ∧
        o = .matched { s with cursor }) ∨
      (s.isAborted = false ∧ p.match? s.cursor = none ∧ o = .failed s.recordFailure) := by
  rw [pattern_eq] at h
  split at h
  · rename_i ha
    exact .inl ⟨ha, (Option.some.inj h).symm⟩
  · rename_i ha
    have hfree := Bool.eq_false_iff.2 ha
    split at h
    · rename_i cursor hc
      exact .inr (.inl ⟨hfree, cursor, hc, (Option.some.inj h).symm⟩)
    · rename_i hc
      exact .inr (.inr ⟨hfree, hc, (Option.some.inj h).symm⟩)

/-- A notation that can be read is the pattern that it denotes. -/
theorem written_of_read {notated : Text} {terminal : Notation.Terminal}
    (h : Notation.Terminal.read notated = .ok terminal) :
    (written notated : Body R) = pattern (.terminal terminal) := by
  funext s
  rw [written, h]

/-- A notation that cannot be read gives the parse up. -/
theorem written_of_error {notated : Text} {cause : Notation.Error}
    (h : Notation.Terminal.read notated = .error cause) :
    (written notated : Body R) = abort (.badNotation notated cause) := by
  funext s
  rw [written, h]

theorem andThen_eq_some (h : andThen a b s = some o) :
    (∃ t, a s = some (.matched t) ∧ b t = some o) ∨
      ∃ t, a s = some (.failed t) ∧ o = .failed t := by
  unfold andThen at h
  split at h
  · rename_i t ha
    exact .inl ⟨t, ha, h⟩
  · rename_i hne
    cases o with
    | matched t => exact absurd h (hne t)
    | failed t => exact .inr ⟨t, h, rfl⟩

theorem orElse_eq_some (h : orElse a b s = some o) :
    (∃ t, a s = some (.failed t) ∧ b t = some o) ∨
      ∃ t, a s = some (.matched t) ∧ o = .matched t := by
  unfold orElse at h
  split at h
  · rename_i t ha
    exact .inl ⟨t, ha, h⟩
  · rename_i hne
    cases o with
    | matched t => exact .inr ⟨t, h, rfl⟩
    | failed t => exact absurd h (hne t)

theorem recover_eq_some (h : recover a s = some o) :
    ∃ p, a s = some p ∧ o = .matched p.state := by
  obtain ⟨p, hp, rfl⟩ := Option.map_eq_some_iff.1 h
  exact ⟨p, hp, rfl⟩

theorem sequence_eq_some (h : sequence a s = some o) :
    (∃ t, a s = some (.matched t) ∧ o = .matched t) ∨
      ∃ t, a s = some (.failed t) ∧ o = .failed (t.rollback s.cursor s.found.length) := by
  unfold sequence at h
  split at h
  · rename_i t ha
    exact .inr ⟨t, ha, (Option.some.inj h).symm⟩
  · rename_i hne
    cases o with
    | matched t => exact .inl ⟨t, h, rfl⟩
    | failed t => exact absurd h (hne t)

theorem sequence_eq_none_iff : sequence a s = none ↔ a s = none := by
  unfold sequence
  split
  · rename_i t ht
    rw [ht]
    simp only [reduceCtorEq]
  · rfl

theorem alternative_eq_some (h : alternative a b s = some o) :
    (s.isAborted = true ∧ o = .failed s) ∨
      (s.isAborted = false ∧ orElse (sequence a) b s = some o) := by
  unfold alternative at h
  split at h
  · rename_i ha
    exact .inl ⟨ha, (Option.some.inj h).symm⟩
  · rename_i ha
    exact .inr ⟨Bool.eq_false_iff.2 ha, h⟩

theorem isFull_iff {bounds : Notation.Repeat} {count : Nat} :
    isFull bounds count = true ↔ ∃ most, bounds.max = some most ∧ most.toNat ≤ count := by
  unfold isFull
  cases bounds.max with
  | none => simp only [Bool.false_eq_true, reduceCtorEq, false_and, exists_false]
  | some most => simp only [decide_eq_true_eq, Option.some.injEq, exists_eq_left']

theorem mayStop_iff {bounds : Notation.Repeat} {count : Nat} :
    mayStop bounds count = true ↔ bounds.max = none ∧ bounds.min.toNat ≤ count := by
  unfold mayStop
  rw [Bool.and_eq_true, Option.isNone_iff_eq_none, decide_eq_true_eq]

/-- A run of the loop of a repetition after `count` occurrences: to `total` of them, with the
state where it ends. -/
inductive Loop (bounds : Notation.Repeat) (a : Body R) :
    (attempts count : Nat) → State R → (total : Nat) → State R → Prop where
  | stop {attempts count : Nat} {s : State R}
    (hstop : isFull bounds count = true ∨ s.isAborted = true) :
    Loop bounds a attempts count s count s
  | failed {left count : Nat} {s t : State R} (hroom : isFull bounds count = false)
    (hfree : s.isAborted = false) (ha : sequence a s = some (.failed t)) :
    Loop bounds a (left + 1) count s count t
  /-- An empty occurrence, where no more are needed. -/
  | last {left count : Nat} {s t : State R} (hroom : isFull bounds count = false)
    (hfree : s.isAborted = false) (ha : sequence a s = some (.matched t))
    (hmay : mayStop bounds (count + 1) = true) (hoff : t.offset = s.offset) :
    Loop bounds a (left + 1) count s (count + 1) t
  | onward {left count total : Nat} {s t u : State R} (hroom : isFull bounds count = false)
    (hfree : s.isAborted = false) (ha : sequence a s = some (.matched t))
    (hon : ¬(mayStop bounds (count + 1) = true ∧ t.offset = s.offset))
    (hmore : Loop bounds a left (count + 1) t total u) :
    Loop bounds a (left + 1) count s total u

theorem Loop.of_occurrences {bounds : Notation.Repeat} {attempts count total : Nat} {t : State R}
    (h : occurrences bounds a attempts count s = some (total, t)) :
    Loop bounds a attempts count s total t := by
  induction attempts generalizing count s with
  | zero =>
    unfold occurrences at h
    split at h
    · rename_i hstop
      obtain ⟨rfl, rfl⟩ := Prod.mk.inj (Option.some.inj h)
      exact .stop (Bool.or_eq_true_iff.1 hstop)
    · cases h
  | succ left ih =>
    unfold occurrences at h
    split at h
    · rename_i hstop
      obtain ⟨rfl, rfl⟩ := Prod.mk.inj (Option.some.inj h)
      exact .stop (Bool.or_eq_true_iff.1 hstop)
    · rename_i hgo
      obtain ⟨hroom, hfree⟩ := Bool.or_eq_false_iff.1 (Bool.eq_false_iff.2 hgo)
      dsimp only at h
      split at h
      · cases h
      · rename_i u hu
        obtain ⟨rfl, rfl⟩ := Prod.mk.inj (Option.some.inj h)
        exact .failed hroom hfree hu
      · rename_i u hu
        split at h
        · rename_i hend
          obtain ⟨hmay, hoff⟩ := Bool.and_eq_true_iff.1 hend
          obtain ⟨rfl, rfl⟩ := Prod.mk.inj (Option.some.inj h)
          exact .last hroom hfree hu hmay (beq_iff_eq.1 hoff)
        · rename_i hon
          refine .onward hroom hfree hu (fun hend => hon ?_) (ih h)
          exact Bool.and_eq_true_iff.2 ⟨hend.1, beq_iff_eq.2 hend.2⟩

section Turns

variable {bounds : Notation.Repeat} {count : Nat} {t : State R}

/-! One turn of the loop, for each way in which it can go. -/

theorem occurrences_of_stop (hstop : isFull bounds count = true ∨ s.isAborted = true)
    (attempts : Nat) : occurrences bounds a attempts count s = some (count, s) := by
  unfold occurrences
  rw [if_pos (Bool.or_eq_true_iff.2 hstop)]

theorem occurrences_zero (hroom : isFull bounds count = false) (hfree : s.isAborted = false) :
    occurrences bounds a 0 count s = none := by
  rw [occurrences, hroom, hfree]
  rfl

theorem occurrences_of_failed (hroom : isFull bounds count = false) (hfree : s.isAborted = false)
    (ha : sequence a s = some (.failed t)) (left : Nat) :
    occurrences bounds a (left + 1) count s = some (count, t) := by
  rw [occurrences, hroom, hfree]
  simp only [Bool.or_self, Bool.false_eq_true, if_false, ha]

theorem occurrences_of_last (hroom : isFull bounds count = false) (hfree : s.isAborted = false)
    (ha : sequence a s = some (.matched t)) (hmay : mayStop bounds (count + 1) = true)
    (hoff : t.offset = s.offset) (left : Nat) :
    occurrences bounds a (left + 1) count s = some (count + 1, t) := by
  rw [occurrences, hroom, hfree]
  simp only [Bool.or_self, Bool.false_eq_true, if_false, ha, hmay, hoff, beq_self_eq_true,
    Bool.and_self, if_true]

theorem occurrences_of_onward (hroom : isFull bounds count = false) (hfree : s.isAborted = false)
    (ha : sequence a s = some (.matched t))
    (hon : ¬(mayStop bounds (count + 1) = true ∧ t.offset = s.offset)) (left : Nat) :
    occurrences bounds a (left + 1) count s = occurrences bounds a left (count + 1) t := by
  have hgo : ¬(mayStop bounds (count + 1) && t.offset == s.offset) = true := fun hend =>
    hon ((Bool.and_eq_true_iff.1 hend).imp_right beq_iff_eq.1)
  rw [occurrences, hroom, hfree]
  simp only [Bool.or_self, Bool.false_eq_true, if_false, ha, if_neg hgo]

end Turns

theorem Loop.occurrences_eq {bounds : Notation.Repeat} {attempts count total : Nat} {t : State R}
    (h : Loop bounds a attempts count s total t) :
    occurrences bounds a attempts count s = some (total, t) := by
  induction h with
  | stop hstop => exact occurrences_of_stop hstop _
  | failed hroom hfree ha => exact occurrences_of_failed hroom hfree ha _
  | last hroom hfree ha hmay hoff => exact occurrences_of_last hroom hfree ha hmay hoff _
  | onward hroom hfree ha hon _ ih => exact (occurrences_of_onward hroom hfree ha hon _).trans ih

theorem repeated_eq_some {bounds : Notation.Repeat} (h : repeated bounds a s = some o) :
    (∃ cause, bounds.validate = .error cause ∧
        o = .failed (s.abort (.badNotation bounds.render cause))) ∨
      (bounds.validate = .ok () ∧ ∃ count t,
        Loop bounds a (attempts bounds s.rest) 0 s count t ∧
          ((bounds.min.toNat ≤ count ∧ t.isAborted = false ∧ o = .matched t) ∨
            (¬(bounds.min.toNat ≤ count ∧ t.isAborted = false) ∧
              o = .failed (t.rollback s.cursor s.found.length)))) := by
  unfold repeated at h
  split at h
  · rename_i cause hcause
    exact .inl ⟨cause, hcause, (Option.some.inj h).symm⟩
  · rename_i hvalid
    obtain ⟨⟨count, t⟩, ht, rfl⟩ := Option.map_eq_some_iff.1 h
    refine .inr ⟨hvalid, count, t, .of_occurrences ht, ?_⟩
    by_cases henough : bounds.min.toNat ≤ count ∧ t.isAborted = false
    · exact .inl ⟨henough.1, henough.2, by simp [henough.1, henough.2]⟩
    · refine .inr ⟨henough, ?_⟩
      have hno : ¬(decide (bounds.min.toNat ≤ count) && !t.isAborted) = true := by
        simpa only [Bool.and_eq_true, decide_eq_true_eq, Bool.not_eq_true'] using henough
      simp only [if_neg hno]

theorem rule_eq_some {tag : R} (h : rule tag a s = some o) :
    (s.isAborted = true ∧ o = .failed s) ∨
      (s.isAborted = false ∧ s.maxDepth ≤ s.diagnostics.depth ∧
        o = .failed (s.abort (.recursionLimit s.maxDepth s.offset))) ∨
      (s.isAborted = false ∧ s.diagnostics.depth < s.maxDepth ∧
        ∃ p, a (s.enter tag) = some p ∧
          ((p.isMatched = true ∧ p.state.isAborted = false ∧
              o = .matched (p.state.leaveMatched tag s.cursor s.found)) ∨
            (¬(p.isMatched = true ∧ p.state.isAborted = false) ∧
              o = .failed (p.state.leaveFailed tag s.cursor s.found)))) := by
  unfold rule at h
  split at h
  · rename_i ha
    exact .inl ⟨ha, (Option.some.inj h).symm⟩
  · rename_i ha
    have hfree := Bool.eq_false_iff.2 ha
    split at h
    · rename_i hdeep
      exact .inr (.inl ⟨hfree, hdeep, (Option.some.inj h).symm⟩)
    · rename_i hdeep
      refine .inr (.inr ⟨hfree, Nat.lt_of_not_le hdeep, ?_⟩)
      split at h
      · cases h
      · rename_i t ht
        exact ⟨.failed t, ht, .inr ⟨fun hm => Bool.false_ne_true hm.1, (Option.some.inj h).symm⟩⟩
      · rename_i t ht
        refine ⟨.matched t, ht, ?_⟩
        split at h
        · rename_i hab
          refine .inr ⟨fun hm => ?_, (Option.some.inj h).symm⟩
          exact Bool.false_ne_true (hm.2.symm.trans hab)
        · rename_i hab
          exact .inl ⟨rfl, Bool.eq_false_iff.2 hab, (Option.some.inj h).symm⟩

/-- **What one occurrence keeps, all of them keep.** -/
theorem Loop.keeps {P : State R → Prop} {bounds : Notation.Repeat}
    (hstep : ∀ {s o}, P s → sequence a s = some o → P o.state) {attempts count total : Nat}
    {t : State R} (h : Loop bounds a attempts count s total t) (hs : P s) : P t := by
  induction h with
  | stop => exact hs
  | failed _ _ ha => exact hstep hs ha
  | last _ _ ha _ _ => exact hstep hs ha
  | onward _ _ ha _ _ ih => exact ih (hstep hs ha)

/-- A property of bodies that no operator loses. -/
structure Closed (P : Body R → Prop) : Prop where
  never : P fun _ => none
  succeed : P succeed
  fail : P fail
  test : ∀ p, P (test p)
  abort : ∀ e, P (abort e)
  pattern : ∀ p, P (pattern p)
  andThen : ∀ {a b}, P a → P b → P (andThen a b)
  orElse : ∀ {a b}, P a → P b → P (orElse a b)
  recover : ∀ {a}, P a → P (recover a)
  sequence : ∀ {a}, P a → P (sequence a)
  alternative : ∀ {a b}, P a → P b → P (alternative a b)
  repeated : ∀ bounds {a}, P a → P (repeated bounds a)
  rule : ∀ tag {a}, P a → P (rule tag a)

namespace Closed

variable {P : Body R → Prop} (hP : Closed P)

include hP

theorem written (notated : Text) : P (written notated) := by
  cases h : Notation.Terminal.read notated with
  | ok terminal =>
    rw [written_of_read h]
    exact hP.pattern _
  | error cause =>
    rw [written_of_error h]
    exact hP.abort _

variable [DecidableEq R] {n : Nat}

theorem denote {env : Fin n → Body R} (henv : ∀ i, P (env i)) (e : Expr R n) :
    P (Expr.denote env e) := by
  induction e with
  | succeed => exact hP.succeed
  | fail => exact hP.fail
  | test p => exact hP.test _
  | abort e => exact hP.abort e
  | pattern p => exact hP.pattern p
  | written notated => exact hP.written notated
  | andThen a b iha ihb => exact hP.andThen iha ihb
  | orElse a b iha ihb => exact hP.orElse iha ihb
  | recover a ih => exact hP.recover ih
  | sequence a ih => exact hP.sequence ih
  | alternative a b iha ihb => exact hP.alternative iha ihb
  | repeated bounds a ih => exact hP.repeated bounds ih
  | rule tag a ih => exact hP.rule tag ih
  | ref i => exact henv i

theorem unfold (rules : Rules R n) (k : Nat) (i : Fin n) : P (Expr.unfold rules k i) := by
  induction k generalizing i with
  | zero => exact hP.never
  | succ k ih => exact hP.denote ih (rules i)

/-- **A property that no operator loses holds of every expression**, however deep references
may nest: of the bodies of the rules by induction on that depth, and of an expression over
them by induction on the expression. -/
theorem eval (rules : Rules R n) (k : Nat) (e : Expr R n) : P (Expr.eval rules k e) :=
  hP.denote (hP.unfold rules k) e

end Closed
end Body
end Descent
