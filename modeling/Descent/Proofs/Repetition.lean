/-
# Repetitions are greedy and end

A repetition tries one occurrence of its body after another, each from where the one
before it ended, and never goes back to fewer.  Its run is a sequence of states: `run 0`
is where the repetition starts, and `run (i + 1)` is where occurrence `i` ends.

| relation | meaning |
| --- | --- |
| `Enough bounds run i` | after `i` occurrences no other one is tried |
| `Course bounds a run k` | the first `k` occurrences match, each of them wanted |
| `Ends bounds a run k last tries` | the run ends after `k` occurrences, in `last` |

None of the three knows of the limit on attempts that the loop is given, and the loop
follows them under every limit that is high enough (`Ends.loop`).  The one that a
repetition sets is (`Ends.tries_le_attempts`): each occurrence that is not the last one
makes the attempts that are still needed fewer by one at least (`Course.needed_le`).
-/

import Descent.Proofs.Account
import Descent.Proofs.RepeatNotation
import Descent.Proofs.Rollback
import Descent.Proofs.Termination

namespace Descent

variable {R : Type}

/-- The later state has the nodes of the earlier one, and others after them. -/
theorem State.Extends.exists_nodes_eq {s t : State R} (h : s.Extends t) :
    ∃ added, t.nodes = s.nodes ++ added := by
  obtain ⟨added, hadded⟩ := h.nodes_prefix
  exact ⟨added, hadded.symm⟩

/-- What follows a sound cursor is what its offset leaves of the input. -/
theorem Cursor.Sound.byteLength_rest {c : Cursor} (hc : c.Sound) :
    c.rest.byteLength = c.input.byteLength - c.offset := by
  obtain ⟨before, hinput, hlen⟩ := Text.drop?_eq_some_iff.1 hc
  rw [hinput, Text.byteLength_append, hlen]
  omega

namespace Body

/-- After `i` occurrences no other one is tried: there are as many as are allowed, the parse is
given up, or without a greatest number the latest was empty and no more are needed. -/
def Enough (bounds : Notation.Repeat) (run : Nat → State R) (i : Nat) : Prop :=
  bounds.max.map UInt64.toNat = some i ∨ (run i).isAborted = true ∨
    (bounds.max = none ∧ 1 ≤ i ∧ bounds.min.toNat ≤ i ∧ (run i).offset = (run (i - 1)).offset)

/-- The first `k` occurrences match, one after another, and each was still to be tried. -/
structure Course (bounds : Notation.Repeat) (a : Body R) (run : Nat → State R) (k : Nat) :
    Prop where
  matched : ∀ i < k, sequence a (run i) = some (.matched (run (i + 1)))
  wanted : ∀ i < k, ¬Enough bounds run i

/-- The run ends after `k` occurrences in the state `last`, with the number of attempts that were
made: no other one is to be tried, or it is and fails. -/
inductive Ends (bounds : Notation.Repeat) (a : Body R) (run : Nat → State R) (k : Nat) :
    (last : State R) → (tries : Nat) → Prop where
  | enough (h : Enough bounds run k) : Ends bounds a run k (run k) k
  | failed {u : State R} (h : ¬Enough bounds run k) (ha : sequence a (run k) = some (.failed u)) :
    Ends bounds a run k u (k + 1)

variable {bounds : Notation.Repeat} {a : Body R} {run : Nat → State R} {i k tries : Nat}
  {last : State R}

theorem not_enough_iff : ¬Enough bounds run i ↔
    bounds.max.map UInt64.toNat ≠ some i ∧ (run i).isAborted = false ∧
      ¬(bounds.max = none ∧ 1 ≤ i ∧ bounds.min.toNat ≤ i ∧
        (run i).offset = (run (i - 1)).offset) := by
  unfold Enough
  rw [not_or, not_or, Bool.not_eq_true]

/-- Where another occurrence is tried, the one that led there was not the last. -/
theorem not_last_of_not_enough (h : ¬Enough bounds run (i + 1)) :
    ¬(mayStop bounds (i + 1) = true ∧ (run (i + 1)).offset = (run i).offset) := by
  rintro ⟨hmay, hoff⟩
  obtain ⟨hmax, hmin⟩ := mayStop_iff.1 hmay
  exact (not_enough_iff.1 h).2.2 ⟨hmax, Nat.le_add_left 1 i, hmin, hoff⟩

/-- Where no other occurrence is tried, the loop stops, unless the latest one was its last. -/
theorem Enough.stops (h : Enough bounds run i)
    (hlast : ¬(mayStop bounds i = true ∧ 1 ≤ i ∧ (run i).offset = (run (i - 1)).offset)) :
    isFull bounds i = true ∨ (run i).isAborted = true := by
  rcases h with hmax | hab | ⟨hmax, hpos, hmin, hoff⟩
  · obtain ⟨most, hmost, hreached⟩ := Option.map_eq_some_iff.1 hmax
    exact .inl (isFull_iff.2 ⟨most, hmost, hreached.le⟩)
  · exact .inr hab
  · exact absurd ⟨mayStop_iff.2 ⟨hmax, hmin⟩, hpos, hoff⟩ hlast

/-- Whether there are enough occurrences is settled by the states up to the latest. -/
theorem enough_congr {run' : Nat → State R} (h : ∀ j ≤ i, run' j = run j) :
    Enough bounds run' i ↔ Enough bounds run i := by
  unfold Enough
  rw [h i (Nat.le_refl i), h (i - 1) (Nat.sub_le i 1)]

namespace Course

theorem take (hc : Course bounds a run k) (hi : i ≤ k) : Course bounds a run i where
  matched := fun j hj => hc.matched j (Nat.lt_of_lt_of_le hj hi)
  wanted := fun j hj => hc.wanted j (Nat.lt_of_lt_of_le hj hi)

/-- The greatest number is passed by no run, so it is open where it is not reached. -/
theorem isFull_eq_false (hc : Course bounds a run k) (hk : ¬Enough bounds run k) :
    isFull bounds k = false := by
  refine Bool.eq_false_iff.2 fun hfull => ?_
  obtain ⟨most, hmost, hle⟩ := isFull_iff.1 hfull
  have hreached : Enough bounds run most.toNat := .inl (by rw [hmost, Option.map_some])
  rcases Nat.eq_or_lt_of_le hle with heq | hlt
  · exact hk (heq ▸ hreached)
  · exact hc.wanted _ hlt hreached

/-- Where another occurrence is tried, the loop does not stop before it. -/
theorem goes_on (hc : Course bounds a run k) (hk : ¬Enough bounds run k) :
    isFull bounds k = false ∧ (run k).isAborted = false :=
  ⟨hc.isFull_eq_false hk, (not_enough_iff.1 hk).2.1⟩

theorem latest (hc : Course bounds a run (k + 1)) :
    Course bounds a run k ∧ ¬Enough bounds run k ∧
      sequence a (run k) = some (.matched (run (k + 1))) :=
  ⟨hc.take (Nat.le_succ k), hc.wanted k (Nat.lt_succ_self k), hc.matched k (Nat.lt_succ_self k)⟩

/-- One more occurrence, where it is to be tried and matches. -/
theorem extend (hc : Course bounds a run k) (hk : ¬Enough bounds run k) {t : State R}
    (ht : sequence a (run k) = some (.matched t)) :
    ∃ run', run' 0 = run 0 ∧ Course bounds a run' (k + 1) := by
  have hold (j : Nat) (hj : j ≤ k) : Function.update run (k + 1) t j = run j :=
    Function.update_of_ne (Nat.ne_of_lt (Nat.lt_succ_of_le hj)) t run
  have hwanted (j : Nat) (hj : j ≤ k) : ¬Enough bounds run j := by
    rcases Nat.eq_or_lt_of_le hj with rfl | hlt
    · exact hk
    · exact hc.wanted j hlt
  refine ⟨Function.update run (k + 1) t, hold 0 (Nat.zero_le k), fun j hj => ?_, fun j hj => ?_⟩
  · rcases Nat.eq_or_lt_of_le (Nat.le_of_lt_succ hj) with rfl | hlt
    · rw [hold j (Nat.le_refl j), Function.update_self]
      exact ht
    · rw [hold j (Nat.le_of_lt hlt), hold (j + 1) hlt]
      exact hc.matched j hlt
  · have hle := Nat.le_of_lt_succ hj
    rw [enough_congr fun l hl => hold l (Nat.le_trans hl hle)]
    exact hwanted j hle

theorem extends_run (hc : Course bounds a run k) (ha : Extending a) : (run 0).Extends (run k) := by
  induction k with
  | zero => exact .refl (run 0)
  | succ k ih =>
    obtain ⟨hbefore, -, hmatched⟩ := hc.latest
    exact (ih hbefore).trans (extending_sequence ha hmatched)

/-- **The first occurrences of a run are turns of the loop**, under any limit that covers them, and
what happens in them is what happens in the loop until then.  By induction on their number. -/
theorem turns (hc : Course bounds a run k) (hk : ¬Enough bounds run k) (α : Account R)
    (left : Nat) :
    occurrences bounds a (k + left) 0 (run 0) = occurrences bounds a left k (run k) ∧
      Account.occurrences bounds a α (k + left) 0 (run 0) =
        (List.range k).flatMap (fun i => α (run i)) ++
          Account.occurrences bounds a α left k (run k) := by
  induction k generalizing left with
  | zero =>
    rw [Nat.zero_add]
    exact ⟨rfl, rfl⟩
  | succ k ih =>
    obtain ⟨hbefore, hwanted, hmatched⟩ := hc.latest
    obtain ⟨hroom, hfree⟩ := hbefore.goes_on hwanted
    have hon := not_last_of_not_enough hk
    obtain ⟨hoccurrences, haccount⟩ := ih hbefore hwanted (left + 1)
    rw [Nat.add_right_comm, Nat.add_assoc, hoccurrences, haccount, List.range_succ,
      List.flatMap_append, List.flatMap_singleton, List.append_assoc]
    exact ⟨occurrences_of_onward hroom hfree hmatched hon left,
      congrArg _ (Account.occurrences_of_onward hroom hfree hmatched hon left)⟩

/-- Where another occurrence is to be tried, as many attempts as there were are too few. -/
theorem occurrences_eq_none (hc : Course bounds a run k) (hk : ¬Enough bounds run k) :
    occurrences bounds a k 0 (run 0) = none := by
  obtain ⟨hroom, hfree⟩ := hc.goes_on hk
  exact (hc.turns hk Account.nothing 0).1.trans (occurrences_zero hroom hfree)

/-- Where the body has no outcome, neither has the loop, under any limit. -/
theorem occurrences_of_none (hc : Course bounds a run k) (hk : ¬Enough bounds run k)
    (hnone : sequence a (run k) = none) {limit : Nat} (hlimit : k < limit) :
    occurrences bounds a limit 0 (run 0) = none := by
  obtain ⟨left, rfl⟩ := Nat.exists_eq_add_of_lt hlimit
  obtain ⟨hroom, hfree⟩ := hc.goes_on hk
  rw [Nat.add_assoc, (hc.turns hk Account.nothing (left + 1)).1, occurrences, hroom, hfree]
  simp only [Bool.or_self, Bool.false_eq_true, if_false, hnone]

/-- **Every occurrence pays for itself**: with it, the attempts that are needed get fewer by one at
least. -/
theorem needed_le (hc : Course bounds a run k) (hk : ¬Enough bounds run k) (ha : Extending a) :
    k + needed bounds k (run k).rest ≤ needed bounds 0 (run 0).rest := by
  induction k with
  | zero => rw [Nat.zero_add]
  | succ k ih =>
    obtain ⟨hbefore, hwanted, hmatched⟩ := hc.latest
    have hstep : (run k).Extends (run (k + 1)) := extending_sequence ha hmatched
    have hless := needed_lt (hbefore.isFull_eq_false hwanted) hstep (not_last_of_not_enough hk)
    have hall := ih hbefore hwanted
    omega

theorem lt_attempts (hc : Course bounds a run k) (hk : ¬Enough bounds run k) (ha : Extending a) :
    k < attempts bounds (run 0).rest := by
  have hall := hc.needed_le hk ha
  have hpos := needed_pos (hc.isFull_eq_false hk) (run k).rest
  rw [attempts_eq_needed]
  omega

/-- The nodes after some occurrences are those before them and what each of them added. -/
theorem exists_nodes_eq (hc : Course bounds a run k) (ha : Extending a) :
    ∃ added : Nat → List (Node R), (∀ i < k, (run (i + 1)).nodes = (run i).nodes ++ added i) ∧
      (run k).nodes = (run 0).nodes ++ (List.range k).flatMap added := by
  have hstep (i : Nat) : ∃ added, i < k → (run (i + 1)).nodes = (run i).nodes ++ added := by
    by_cases hi : i < k
    · obtain ⟨added, hadded⟩ := (extending_sequence ha (hc.matched i hi)).exists_nodes_eq
      exact ⟨added, fun _ => hadded⟩
    · exact ⟨[], fun h => absurd h hi⟩
  choose added hadded using hstep
  refine ⟨added, hadded, ?_⟩
  clear hc
  induction k with
  | zero => rw [List.range_zero, List.flatMap_nil, List.append_nil]
  | succ k ih =>
    rw [hadded k (Nat.lt_succ_self k), ih fun i hi => hadded i (Nat.lt_succ_of_lt hi),
      List.range_succ, List.flatMap_append, List.flatMap_singleton, List.append_assoc]

/-- Once there are enough occurrences, each but the last takes a byte. -/
theorem offset_lt (hc : Course bounds a run k) (ha : Extending a) (hmax : bounds.max = none)
    (hmin : bounds.min.toNat ≤ i + 1) (hi : i + 1 < k) :
    (run i).offset < (run (i + 1)).offset := by
  have hle : (run i).offset ≤ (run (i + 1)).offset :=
    (extending_sequence ha (hc.matched i (Nat.lt_of_succ_lt hi))).offset_le
  refine Nat.lt_of_le_of_ne hle fun hoff => hc.wanted (i + 1) hi ?_
  exact .inr (.inr ⟨hmax, Nat.le_add_left 1 i, hmin, hoff.symm⟩)

end Course

namespace Ends

theorem not_enough_of_lt (he : Ends bounds a run k last tries) (hc : Course bounds a run k)
    (hi : i < tries) : i ≤ k ∧ ¬Enough bounds run i := by
  cases he with
  | enough h => exact ⟨Nat.le_of_lt hi, hc.wanted i hi⟩
  | failed h ha =>
    rcases Nat.eq_or_lt_of_le (Nat.le_of_lt_succ hi) with rfl | hlt
    · exact ⟨Nat.le_refl i, h⟩
    · exact ⟨Nat.le_of_lt hlt, hc.wanted i hlt⟩

/-- The attempt that ends a run without an occurrence leaves no trace in the input or the nodes. -/
theorem kept (he : Ends bounds a run k last tries) (ha : Extending a) :
    last.cursor = (run k).cursor ∧ last.found = (run k).found := by
  cases he with
  | enough h => exact ⟨rfl, rfl⟩
  | failed h hu => exact restoring_sequence ha hu

theorem extends_last (he : Ends bounds a run k last tries) (hc : Course bounds a run k)
    (ha : Extending a) : (run 0).Extends last := by
  have hrun := hc.extends_run ha
  cases he with
  | enough h => exact hrun
  | failed h hu => exact hrun.trans (extending_sequence ha hu)

theorem tries_le_attempts (he : Ends bounds a run k last tries) (hc : Course bounds a run k)
    (ha : Extending a) : tries ≤ attempts bounds (run 0).rest := by
  cases tries with
  | zero => exact Nat.zero_le _
  | succ tries =>
    obtain ⟨hle, hwanted⟩ := he.not_enough_of_lt hc (Nat.lt_succ_self tries)
    exact (hc.take hle).lt_attempts hwanted ha

/-- The last attempt of a run is the last turn of the loop. -/
theorem last_turn (he : Ends bounds a run k last (tries + 1)) (hc : Course bounds a run k)
    (α : Account R) (left : Nat) :
    occurrences bounds a (left + 1) tries (run tries) = some (k, last) ∧
      Account.occurrences bounds a α (left + 1) tries (run tries) = α (run tries) := by
  cases he with
  | failed h hu =>
    obtain ⟨hroom, hfree⟩ := hc.goes_on h
    exact ⟨occurrences_of_failed hroom hfree hu left,
      Account.occurrences_of_failed hroom hfree hu left⟩
  | enough h =>
    obtain ⟨hbefore, hwanted, hmatched⟩ := hc.latest
    obtain ⟨hroom, hfree⟩ := hbefore.goes_on hwanted
    -- an empty occurrence ends the loop in its own turn, the other ends show in the turn after it
    by_cases hlast : mayStop bounds (tries + 1) = true ∧
        (run (tries + 1)).offset = (run tries).offset
    · obtain ⟨hmay, hoff⟩ := hlast
      exact ⟨occurrences_of_last hroom hfree hmatched hmay hoff left,
        Account.occurrences_of_last hroom hfree hmatched hmay hoff left⟩
    · have hstop := h.stops fun hend => hlast ⟨hend.1, hend.2.2⟩
      rw [occurrences_of_onward hroom hfree hmatched hlast,
        Account.occurrences_of_onward hroom hfree hmatched hlast,
        occurrences_of_stop hstop, Account.occurrences_of_stop hstop, List.append_nil]
      exact ⟨rfl, rfl⟩

/-- **The loop follows the run to its end** under every limit that allows the attempts that are
made, and what happens in it is what happens in these. -/
theorem loop (he : Ends bounds a run k last tries) (hc : Course bounds a run k) (α : Account R)
    {limit : Nat} (hlimit : tries ≤ limit) :
    occurrences bounds a limit 0 (run 0) = some (k, last) ∧
      Account.occurrences bounds a α limit 0 (run 0) =
        (List.range tries).flatMap fun i => α (run i) := by
  cases tries with
  | zero =>
    cases he with
    | enough h =>
      have hstop := h.stops fun hend => Nat.not_succ_le_zero 0 hend.2.1
      exact ⟨occurrences_of_stop hstop limit, Account.occurrences_of_stop hstop limit⟩
  | succ tries =>
    obtain ⟨left, rfl⟩ := Nat.exists_eq_add_of_le hlimit
    obtain ⟨hle, hwanted⟩ := he.not_enough_of_lt hc (Nat.lt_succ_self tries)
    obtain ⟨hturns, haccount⟩ := (hc.take hle).turns hwanted α (left + 1)
    obtain ⟨hlast, hlastAccount⟩ := he.last_turn hc α left
    rw [Nat.add_right_comm, Nat.add_assoc, hturns, haccount, hlast, hlastAccount, List.range_succ,
      List.flatMap_append, List.flatMap_singleton]
    exact ⟨rfl, rfl⟩

/-- The number of attempts is the least limit under which the loop comes to an end. -/
theorem occurrences_eq (he : Ends bounds a run k last tries) (hc : Course bounds a run k)
    (limit : Nat) :
    occurrences bounds a limit 0 (run 0) = if tries ≤ limit then some (k, last) else none := by
  by_cases hlimit : tries ≤ limit
  · rw [if_pos hlimit]
    exact (he.loop hc Account.nothing hlimit).1
  · rw [if_neg hlimit]
    obtain ⟨hle, hwanted⟩ := he.not_enough_of_lt hc (Nat.lt_of_not_le hlimit)
    exact (hc.take hle).occurrences_eq_none hwanted

end Ends

/-- Up to any number of occurrences a run ends, or the body has no outcome in it, or there are that
many occurrences. -/
theorem exists_course_upto (bounds : Notation.Repeat) (a : Body R) (s : State R) (most : Nat) :
    ∃ run k, run 0 = s ∧ Course bounds a run k ∧
      ((∃ last tries, Ends bounds a run k last tries) ∨
        (¬Enough bounds run k ∧ (a (run k) = none ∨ k = most))) := by
  induction most with
  | zero =>
    refine ⟨fun _ => s, 0, rfl, ⟨nofun, nofun⟩, ?_⟩
    by_cases henough : Enough bounds (fun _ => s) 0
    · exact .inl ⟨s, 0, .enough henough⟩
    · exact .inr ⟨henough, .inr rfl⟩
  | succ most ih =>
    obtain ⟨run, k, hrun, hc, hends | ⟨hk, hnone | rfl⟩⟩ := ih
    · exact ⟨run, k, hrun, hc, .inl hends⟩
    · exact ⟨run, k, hrun, hc, .inr ⟨hk, .inl hnone⟩⟩
    · cases ho : sequence a (run k) with
      | none => exact ⟨run, k, hrun, hc, .inr ⟨hk, .inl (sequence_eq_none_iff.1 ho)⟩⟩
      | some o =>
        cases o with
        | failed u => exact ⟨run, k, hrun, hc, .inl ⟨u, k + 1, .failed hk ho⟩⟩
        | matched t =>
          obtain ⟨run', hrun', hc'⟩ := hc.extend hk ho
          refine ⟨run', k + 1, hrun'.trans hrun, hc', ?_⟩
          by_cases henough : Enough bounds run' (k + 1)
          · exact .inl ⟨run' (k + 1), k + 1, .enough henough⟩
          · exact .inr ⟨henough, .inr rfl⟩

/-- **Every run comes to an end**, unless the body has no outcome in it: a run that went on would
make more attempts than it can need. -/
theorem exists_course (ha : Extending a) (bounds : Notation.Repeat) (s : State R) :
    ∃ run k, run 0 = s ∧ Course bounds a run k ∧
      ((∃ last tries, Ends bounds a run k last tries) ∨
        (¬Enough bounds run k ∧ a (run k) = none)) := by
  obtain ⟨run, k, hrun, hc, hends | ⟨hk, hnone | heq⟩⟩ :=
    exists_course_upto bounds a s (attempts bounds s.rest)
  · exact ⟨run, k, hrun, hc, .inl hends⟩
  · exact ⟨run, k, hrun, hc, .inr ⟨hk, hnone⟩⟩
  · have hlt := hc.lt_attempts hk ha
    rw [hrun, ← heq] at hlt
    exact absurd hlt (Nat.lt_irrefl k)

/-- **What a repetition answers**: success where its run ends, if that is after enough occurrences
and the parse is not given up, and failure back where it began otherwise. -/
theorem Ends.repeated_eq (he : Ends bounds a run k last tries) (hc : Course bounds a run k)
    (ha : Extending a) (hvalid : bounds.validate = .ok ()) :
    repeated bounds a (run 0) =
      some (if bounds.min.toNat ≤ k ∧ last.isAborted = false then .matched last
        else .failed { last with cursor := (run 0).cursor, found := (run 0).found }) := by
  unfold repeated
  rw [hvalid]
  dsimp only
  rw [(he.loop hc Account.nothing (he.tries_le_attempts hc ha)).1, Option.map_some,
    (he.extends_last hc ha).rollback_eq]
  simp only [Bool.and_eq_true, decide_eq_true_eq, Bool.not_eq_true']

theorem Ends.account_repeated (he : Ends bounds a run k last tries) (hc : Course bounds a run k)
    (ha : Extending a) (hvalid : bounds.validate = .ok ()) (α : Account R) :
    Account.repeated bounds a α (run 0) = (List.range tries).flatMap fun i => α (run i) := by
  unfold Account.repeated
  rw [hvalid]
  exact (he.loop hc α (he.tries_le_attempts hc ha)).2

theorem Course.repeated_eq_none (hc : Course bounds a run k) (hk : ¬Enough bounds run k)
    (ha : Extending a) (hvalid : bounds.validate = .ok ()) (hnone : a (run k) = none) :
    repeated bounds a (run 0) = none := by
  unfold repeated
  rw [hvalid]
  dsimp only
  rw [hc.occurrences_of_none hk (sequence_eq_none_iff.2 hnone) (hc.lt_attempts hk ha),
    Option.map_none]

/-- A repetition that needs no occurrence matches unless the parse is given up. -/
theorem isMatched_repeated_iff {s : State R} {o : Outcome R} (hmin : bounds.min = 0)
    (h : repeated bounds a s = some o) : o.isMatched = true ↔ o.state.isAborted = false := by
  rcases repeated_eq_some h with ⟨cause, -, rfl⟩ | ⟨-, count, t, -, ⟨-, hfree, rfl⟩ | ⟨hno, rfl⟩⟩
  · exact iff_of_false Bool.false_ne_true (Bool.eq_false_iff.not_left.2 (s.isAborted_abort _))
  · exact iff_of_true rfl hfree
  · refine iff_of_false Bool.false_ne_true fun hfree => hno ⟨?_, hfree⟩
    rw [hmin]
    exact Nat.zero_le count

end Body

namespace Expr

variable [DecidableEq R] {n : Nat}

/-- **A repetition is greedy within its bounds and gives nothing back.**  With bounds in order, its
run goes on until an occurrence fails, there are as many as are allowed, the parse is given up, or
without a greatest number one is empty and no more are needed.  It matches where the run ends, if
that is after enough occurrences and the parse is not given up, with the nodes of all occurrences
after those before it; otherwise it fails with the cursor and the nodes it began with.  The body is
tried once for each occurrence, and once more where that attempt fails, which leaves no trace in the
input or the nodes.  Every repetition has such a run, unless its body has no outcome in it.  So
`many` and `optional` match unless the parse is given up.  Bounds out of order give it up, whatever
the body is. -/
theorem repeated_takes_greedily (rules : Rules R n) (d : Nat) (bounds : Notation.Repeat)
    (e : Expr R n) (s : State R) :
    ((∀ most, bounds.max = some most → bounds.min ≤ most) →
      (∀ run k last tries, run 0 = s → Body.Course bounds (eval rules d e) run k →
        Body.Ends bounds (eval rules d e) run k last tries →
        (bounds.min.toNat ≤ k → last.isAborted = false →
          eval rules d (.repeated bounds e) s = some (.matched last)) ∧
        (k < bounds.min.toNat ∨ last.isAborted = true →
          eval rules d (.repeated bounds e) s =
            some (.failed { last with cursor := s.cursor, found := s.found })) ∧
        last.cursor = (run k).cursor ∧ last.nodes = (run k).nodes ∧
        (∃ added : Nat → List (Node R),
          (∀ i < k, (run (i + 1)).nodes = (run i).nodes ++ added i) ∧
            (run k).nodes = s.nodes ++ (List.range k).flatMap added) ∧
        (∀ limit, Body.occurrences bounds (eval rules d e) limit 0 s =
          if tries ≤ limit then some (k, last) else none) ∧
        account rules d (.repeated bounds e) s =
          (List.range tries).flatMap fun i => account rules d e (run i)) ∧
      ∃ run k, run 0 = s ∧ Body.Course bounds (eval rules d e) run k ∧
        ((∃ last tries, Body.Ends bounds (eval rules d e) run k last tries) ∨
          (¬Body.Enough bounds run k ∧ eval rules d e (run k) = none ∧
            eval rules d (.repeated bounds e) s = none))) ∧
    (∀ most, bounds.max = some most → most < bounds.min → s.isAborted = false →
      let cause : Error := .badNotation bounds.render (.repeatInverted bounds.min most)
      (∀ b : Body R, Body.repeated bounds b s = some (.failed { s with fatal := some cause })) ∧
        account rules d (.repeated bounds e) s = [.raised cause s]) ∧
    many e = .repeated (.atLeast 0) e ∧ optional e = .repeated (.between 0 1) e ∧
    ∀ o, eval rules d (many e) s = some o ∨ eval rules d (optional e) s = some o →
      (o.isMatched = true ↔ o.state.isAborted = false) := by
  have ha := eval_extends rules d e
  refine ⟨fun horder => ?_, fun most hmax hlt hfree => ?_, rfl, rfl, fun o ho => ?_⟩
  · have hvalid := Notation.Repeat.validate_eq_ok_iff.2 horder
    refine ⟨fun run k last tries hrun hc he => ?_, ?_⟩
    · subst hrun
      have heval : eval rules d (.repeated bounds e) (run 0) = _ := he.repeated_eq hc ha hvalid
      obtain ⟨hcursor, hfound⟩ := he.kept ha
      have hnodes : last.nodes = (run k).nodes := by
        unfold State.nodes
        rw [hfound]
      refine ⟨fun hmin hfree => ?_, fun hno => ?_, hcursor, hnodes, hc.exists_nodes_eq ha,
        he.occurrences_eq hc, he.account_repeated hc ha hvalid _⟩
      · rw [heval, if_pos ⟨hmin, hfree⟩]
      · rw [heval, if_neg]
        rintro ⟨hmin, hfree⟩
        exact hno.elim (Nat.not_lt_of_le hmin) (Bool.eq_false_iff.1 hfree)
    · obtain ⟨run, k, rfl, hc, hends | ⟨hk, hnone⟩⟩ := Body.exists_course ha bounds s
      · exact ⟨run, k, rfl, hc, .inl hends⟩
      · exact ⟨run, k, rfl, hc, .inr ⟨hk, hnone, hc.repeated_eq_none hk ha hvalid hnone⟩⟩
  · have hinverted : bounds.validate = .error (.repeatInverted bounds.min most) := by
      rw [Notation.Repeat.validate, hmax]
      exact if_pos hlt
    refine ⟨fun b => ?_, ?_⟩
    · rw [Body.repeated, hinverted, ← State.abort_of_free hfree]
      rfl
    · show Account.repeated bounds _ _ s = _
      rw [Account.repeated, hinverted]
      rfl
  · rcases ho with h | h
    · exact Body.isMatched_repeated_iff (show Notation.Repeat.any.min = 0 from rfl) h
    · exact Body.isMatched_repeated_iff (show Notation.Repeat.optional.min = 0 from rfl) h

/-- Two occurrences with a node each and a third one that fails after a character, and bounds out
of order: the hypotheses of `repeated_takes_greedily` are satisfiable. -/
theorem repeated_takes_greedily_pairs :
    let rules : Rules Unit 0 := Fin.elim0
    let pair : Expr Unit 0 :=
      chain [.rule () (.pattern (.character 'a')), .pattern (.character 'b')]
    let bounds : Notation.Repeat := .between 1 9
    let s : State Unit := .start ['a', 'b', 'a', 'b', 'a', 'c'] .standard
    (∃ run last, run 0 = s ∧ Body.Course bounds (eval rules 0 pair) run 2 ∧
        Body.Ends bounds (eval rules 0 pair) run 2 last 3 ∧ last.nodes.length = 2 ∧
        last.offset = 4 ∧ eval rules 0 (.repeated bounds pair) s = some (.matched last) ∧
        account rules 0 (.repeated bounds pair) s =
          (List.range 3).flatMap fun i => account rules 0 pair (run i)) ∧
      Body.repeated (.between 2 1) (eval rules 0 pair) s =
        some (.failed { s with
          fatal := some (.badNotation ['2', '*', '1'] (.repeatInverted 2 1)) }) := by
  intro rules pair bounds s
  obtain ⟨t, ht, htfree⟩ : ∃ t, Body.sequence (eval rules 0 pair) s = some (.matched t) ∧
      t.isAborted = false := ⟨_, rfl, rfl⟩
  obtain ⟨u, hu, hufree⟩ : ∃ u, Body.sequence (eval rules 0 pair) t = some (.matched u) ∧
      u.isAborted = false := by
    obtain rfl := Outcome.matched.inj (Option.some.inj ht)
    exact ⟨_, rfl, rfl⟩
  obtain ⟨last, hlast, hfree, hnodes, hoffset⟩ :
      ∃ last, Body.sequence (eval rules 0 pair) u = some (.failed last) ∧
        last.isAborted = false ∧ last.nodes.length = 2 ∧ last.offset = 4 := by
    obtain rfl := Outcome.matched.inj (Option.some.inj ht)
    obtain rfl := Outcome.matched.inj (Option.some.inj hu)
    exact ⟨_, rfl, rfl, rfl, rfl⟩
  let run : Nat → State Unit
    | 0 => s
    | 1 => t
    | _ => u
  have hwanted (i : Nat) (hi : i ≤ 2) : ¬Body.Enough bounds run i := by
    refine Body.not_enough_iff.2 ⟨?_, ?_, nofun⟩
    · show some 9 ≠ some i
      rw [Ne, Option.some.injEq]
      omega
    · match i, hi with
      | 0, _ => rfl
      | 1, _ => exact htfree
      | 2, _ => exact hufree
  have hc : Body.Course bounds (eval rules 0 pair) run 2 := by
    refine ⟨fun i hi => ?_, fun i hi => hwanted i (Nat.le_of_lt hi)⟩
    match i, hi with
    | 0, _ => exact ht
    | 1, _ => exact hu
  have he : Body.Ends bounds (eval rules 0 pair) run 2 last 3 :=
    .failed (hwanted 2 (Nat.le_refl 2)) hlast
  have horder : ∀ most, bounds.max = some most → bounds.min ≤ most := by
    intro most hmost
    obtain rfl := Option.some.inj hmost
    decide
  obtain ⟨hmatched, -, -, -, -, -, haccount⟩ :=
    ((repeated_takes_greedily rules 0 bounds pair s).1 horder).1 run 2 last 3 rfl hc he
  have hinverted :=
    ((repeated_takes_greedily rules 0 (.between 2 1) pair s).2.1 1 rfl (by decide) rfl).1
  exact ⟨⟨run, last, rfl, hc, he, hnodes, hoffset, hmatched (by decide) hfree, haccount⟩,
    hinverted _⟩

/-- **An unbounded repetition makes boundedly many attempts.**  They are at most the least number,
or one, and one more for each byte that follows: of the occurrences from that number on, each but
the last takes a byte.  The loop needs no more under any limit.  So with a body that has an outcome
wherever the repetition may come to try it, the repetition has one too. -/
theorem unbounded_repetition_ends (rules : Rules R n) (d : Nat) (least : UInt64) (e : Expr R n)
    {s : State R} (hs : s.cursor.Sound) :
    let bounds : Notation.Repeat := .atLeast least
    let most := max least.toNat 1 + (s.cursor.input.byteLength - s.offset)
    (∀ run k, run 0 = s → Body.Course bounds (eval rules d e) run k →
      (¬Body.Enough bounds run k → k < most) ∧
      (∀ last tries, Body.Ends bounds (eval rules d e) run k last tries → tries ≤ most) ∧
      ∀ i, max least.toNat 1 ≤ i + 1 → i + 1 < k → (run i).offset < (run (i + 1)).offset) ∧
    (∀ limit, most ≤ limit → Body.occurrences bounds (eval rules d e) limit 0 s =
      Body.occurrences bounds (eval rules d e) most 0 s) ∧
    ((∀ t, s.Extends t → ∃ o, eval rules d e t = some o) →
      ∃ run k last tries o, run 0 = s ∧ Body.Course bounds (eval rules d e) run k ∧
        Body.Ends bounds (eval rules d e) run k last tries ∧ tries ≤ most ∧
        eval rules d (.repeated bounds e) s = some o ∧
        account rules d (.repeated bounds e) s =
          (List.range tries).flatMap fun i => account rules d e (run i)) := by
  intro bounds most
  have ha := eval_extends rules d e
  have hmost : Body.attempts bounds s.rest = most := by
    have hrest : s.rest.byteLength = s.cursor.input.byteLength - s.offset := hs.byteLength_rest
    show max least.toNat 1 + s.rest.byteLength = _
    rw [hrest]
  have hvalid : bounds.validate = .ok () := rfl
  refine ⟨fun run k hrun hc => ?_, fun limit hlimit => ?_, fun hreturns => ?_⟩
  · subst hrun
    rw [← hmost]
    refine ⟨fun hk => hc.lt_attempts hk ha, fun last tries he => he.tries_le_attempts hc ha,
      fun i hi hlast => hc.offset_lt ha rfl ?_ hlast⟩
    exact Nat.le_trans (Nat.le_max_left _ 1) hi
  · rw [← hmost] at hlimit ⊢
    obtain ⟨run, k, rfl, hc, ⟨last, tries, he⟩ | ⟨hk, hnone⟩⟩ := Body.exists_course ha bounds s
    · have htries := he.tries_le_attempts hc ha
      rw [he.occurrences_eq hc, he.occurrences_eq hc, if_pos htries,
        if_pos (Nat.le_trans htries hlimit)]
    · have hlt := hc.lt_attempts hk ha
      have hseq := Body.sequence_eq_none_iff.2 hnone
      rw [hc.occurrences_of_none hk hseq hlt,
        hc.occurrences_of_none hk hseq (Nat.lt_of_lt_of_le hlt hlimit)]
  · obtain ⟨run, k, rfl, hc, ⟨last, tries, he⟩ | ⟨hk, hnone⟩⟩ := Body.exists_course ha bounds s
    · rw [← hmost]
      exact ⟨run, k, last, tries, _, rfl, hc, he, he.tries_le_attempts hc ha,
        he.repeated_eq hc ha hvalid, he.account_repeated hc ha hvalid _⟩
    · obtain ⟨o, ho⟩ := hreturns (run k) (hc.extends_run ha)
      rw [hnone] at ho
      cases ho

/-- A body that may be empty, and an input of two characters that it takes one at a time: after them
comes one empty occurrence, and all attempts that are allowed are made. -/
theorem unbounded_repetition_ends_empty :
    let rules : Rules Unit 0 := Fin.elim0
    let e : Expr Unit 0 := .orElse (.pattern (.character 'a')) .succeed
    let s : State Unit := .start ['a', 'a'] .standard
    s.cursor.Sound ∧ (∀ t, s.Extends t → ∃ o, eval rules 0 e t = some o) ∧
      ∃ run last, run 0 = s ∧ Body.Course (.atLeast 1) (eval rules 0 e) run 3 ∧
        Body.Ends (.atLeast 1) (eval rules 0 e) run 3 last 3 ∧
        (run 0).offset < (run 1).offset ∧ (run 1).offset < (run 2).offset ∧
        (run 2).offset = (run 3).offset ∧
        3 ≤ max (1 : UInt64).toNat 1 + (s.cursor.input.byteLength - s.offset) := by
  intro rules e s
  have hs : s.cursor.Sound := Cursor.sound_start _
  have hreturns (t : State Unit) (_ : s.Extends t) : ∃ o, eval rules 0 e t = some o :=
    exists_eval (fun i => i.elim0) e (Nat.le_of_eq (Nat.zero_mul _))
  obtain ⟨t, ht, htfree, httake⟩ : ∃ t, Body.sequence (eval rules 0 e) s = some (.matched t) ∧
      t.isAborted = false ∧ t.offset ≠ s.offset := ⟨_, rfl, rfl, by decide⟩
  obtain ⟨u, hu, hufree, hutake⟩ : ∃ u, Body.sequence (eval rules 0 e) t = some (.matched u) ∧
      u.isAborted = false ∧ u.offset ≠ t.offset := by
    obtain rfl := Outcome.matched.inj (Option.some.inj ht)
    exact ⟨_, rfl, rfl, by decide⟩
  obtain ⟨v, hv, hvoff⟩ : ∃ v, Body.sequence (eval rules 0 e) u = some (.matched v) ∧
      v.offset = u.offset := by
    obtain rfl := Outcome.matched.inj (Option.some.inj ht)
    obtain rfl := Outcome.matched.inj (Option.some.inj hu)
    exact ⟨_, rfl, rfl⟩
  let run : Nat → State Unit
    | 0 => s
    | 1 => t
    | 2 => u
    | _ => v
  have hc : Body.Course (.atLeast 1) (eval rules 0 e) run 3 := by
    refine ⟨fun i hi => ?_, fun i hi => Body.not_enough_iff.2 ⟨nofun, ?_, ?_⟩⟩
    · match i, hi with
      | 0, _ => exact ht
      | 1, _ => exact hu
      | 2, _ => exact hv
    · match i, hi with
      | 0, _ => rfl
      | 1, _ => exact htfree
      | 2, _ => exact hufree
    · rintro ⟨-, hpos, -, hoff⟩
      match i, hi with
      | 1, _ => exact httake hoff
      | 2, _ => exact hutake hoff
  have he : Body.Ends (.atLeast 1) (eval rules 0 e) run 3 v 3 :=
    .enough (.inr (.inr ⟨rfl, by decide, by decide, hvoff⟩))
  obtain ⟨-, hbound, hadvance⟩ := (unbounded_repetition_ends rules 0 1 e hs).1 run 3 rfl hc
  exact ⟨hs, hreturns, run, v, rfl, hc, he, hadvance 0 (by decide) (by decide),
    hadvance 1 (by decide) (by decide), hvoff.symm, hbound v 3 he⟩

end Expr
end Descent
