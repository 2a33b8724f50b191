/-
# Two runs that differ by a map of states

Some parts of a state have no say in what matches: the log, or how much room there is
for rules that are never entered.  That a part has no say is a statement about two runs,
from a state and from its image under a map that changes the part.  Such a map has to
keep what the operators look at, and to commute with what they do to a state
(`State.Respected`).  Then each operator carries the run from the state over to the run
from its image, if its parts do on the states that they are given (`Body.Transports`):
the outcome and the moments of the second run are the images of those of the first.

The lemmas are about one state at a time, and ask nothing about states that the run does
not come to.  So they serve maps that can be carried through a part of the states alone.
Entering a rule is the one step at which a map may change the course of things, as the
limit on active rules is a part of the state; `transports_rule` has hypotheses about it.
-/

import Descent.Proofs.Account
import Mathlib.Tactic.MkIffOfInductiveProp

namespace Descent

variable {R : Type}

/-- The same outcome with another state. -/
def Outcome.map (f : State R → State R) : Outcome R → Outcome R
  | .matched s => .matched (f s)
  | .failed s => .failed (f s)

namespace Outcome

variable (f : State R → State R) (o : Outcome R)

@[simp] theorem state_map : (o.map f).state = f o.state := by cases o <;> rfl

@[simp] theorem isMatched_map : (o.map f).isMatched = o.isMatched := by cases o <;> rfl

end Outcome

/-- A map of states that keeps what operators look at, and commutes with what they do. -/
structure State.Respected (f : State R → State R) : Prop where
  isAborted : ∀ s, (f s).isAborted = s.isAborted
  rest : ∀ s, (f s).rest = s.rest
  offset_eq_iff : ∀ s t, (f t).offset = (f s).offset ↔ t.offset = s.offset
  take : ∀ (p : Pattern) s, (p.match? (f s).cursor).map (fun c => { f s with cursor := c }) =
    (p.match? s.cursor).map fun c => f { s with cursor := c }
  recordFailure : ∀ s, (f s).recordFailure = f s.recordFailure
  rollback : ∀ s t, (f t).rollback (f s).cursor (f s).found.length =
    f (t.rollback s.cursor s.found.length)
  enter : ∀ tag s, (f s).enter tag = f (s.enter tag)
  leaveMatched : ∀ tag s t, (f t).leaveMatched tag (f s).cursor (f s).found =
    f (t.leaveMatched tag s.cursor s.found)
  leaveFailed : ∀ tag s t, (f t).leaveFailed tag (f s).cursor (f s).found =
    f (t.leaveFailed tag s.cursor s.found)

namespace Body

/-- From the image of this state the body comes to the images of the outcome and the moments that it
has from the state. -/
@[mk_iff transports_iff]
structure Transports (f : State R → State R) (a : Body R) (α : Account R) (s : State R) : Prop where
  outcome : a (f s) = (a s).map (Outcome.map f)
  account : α (f s) = (α s).map (Moment.map f)

/-- The same of the loop of a repetition. -/
@[mk_iff transportsLoop_iff]
structure TransportsLoop (f : State R → State R) (bounds : Notation.Repeat) (a : Body R)
    (α : Account R) (attempts count : Nat) (s : State R) : Prop where
  outcome : occurrences bounds a attempts count (f s) =
    (occurrences bounds a attempts count s).map (Prod.map id f)
  account : Account.occurrences bounds a α attempts count (f s) =
    (Account.occurrences bounds a α attempts count s).map (Moment.map f)

variable {f : State R → State R} {a b : Body R} {α β : Account R} {s t : State R}

theorem Transports.eq_none (h : Transports f a α s) (hs : a s = none) : a (f s) = none := by
  rw [h.outcome, hs]
  rfl

theorem Transports.matched (h : Transports f a α s) (ht : a s = some (.matched t)) :
    a (f s) = some (.matched (f t)) := by
  rw [h.outcome, ht]
  rfl

theorem Transports.failed (h : Transports f a α s) (ht : a s = some (.failed t)) :
    a (f s) = some (.failed (f t)) := by
  rw [h.outcome, ht]
  rfl

theorem transports_never : Transports f (fun _ => none) Account.nothing s := ⟨rfl, rfl⟩

theorem transports_succeed : Transports f succeed Account.nothing s := ⟨rfl, rfl⟩

theorem transports_fail : Transports f fail Account.nothing s := ⟨rfl, rfl⟩

theorem transports_test {p : State R → Bool} (h : p (f s) = p s) :
    Transports f (test p) Account.nothing s := by
  refine ⟨?_, rfl⟩
  rw [test, test, h]
  cases p s <;> rfl

theorem transports_abort {e : Error} (h : (f s).abort e = f (s.abort e)) :
    Transports f (abort e) (Account.abort e) s := by
  refine ⟨?_, rfl⟩
  rw [abort, h]
  rfl

theorem transports_pattern (hf : State.Respected f) (p : Pattern) :
    Transports f (pattern p) (Account.pattern p) s := by
  rw [transports_iff, pattern_eq, pattern_eq, Account.pattern, Account.pattern, hf.isAborted]
  by_cases haborted : s.isAborted = true
  · rw [if_pos haborted, if_pos haborted, if_pos haborted, if_pos haborted]
    exact ⟨rfl, rfl⟩
  · rw [if_neg haborted, if_neg haborted, if_neg haborted, if_neg haborted]
    have htake := hf.take p s
    cases hs : p.match? s.cursor with
    | none =>
      rw [hs, Option.map_none, Option.map_eq_none_iff] at htake
      rw [htake]
      exact ⟨congrArg (fun t => some (Outcome.failed t)) (hf.recordFailure s), rfl⟩
    | some c =>
      rw [hs, Option.map_some] at htake
      obtain ⟨c', hc', hcursor⟩ := Option.map_eq_some_iff.1 htake
      rw [hc']
      exact ⟨congrArg (fun t => some (Outcome.matched t)) hcursor, rfl⟩

theorem transports_written (hf : State.Respected f) {notated : Text}
    (habort : ∀ cause, (f s).abort (.badNotation notated cause) =
      f (s.abort (.badNotation notated cause))) :
    Transports f (written notated) (Account.written notated) s := by
  rw [transports_iff, written, written, Account.written, Account.written]
  cases Notation.Terminal.read notated with
  | ok terminal => exact (transports_iff ..).1 (transports_pattern hf (.terminal terminal))
  | error cause => exact (transports_iff ..).1 (transports_abort (habort cause))

theorem transports_andThen (ha : Transports f a α s)
    (hb : ∀ t, a s = some (.matched t) → Transports f b β t) :
    Transports f (andThen a b) (Account.andThen a α β) s := by
  unfold andThen Account.andThen
  cases hs : a s with
  | none =>
    rw [transports_iff, ha.eq_none hs, hs]
    exact ⟨rfl, ha.account⟩
  | some o =>
    cases o with
    | failed t =>
      rw [transports_iff, ha.failed hs, hs]
      exact ⟨rfl, ha.account⟩
    | matched t =>
      have ht := hb t hs
      rw [transports_iff, ha.matched hs, hs, List.map_append, ← ha.account, ← ht.account]
      exact ⟨ht.outcome, rfl⟩

theorem transports_orElse (ha : Transports f a α s)
    (hb : ∀ t, a s = some (.failed t) → Transports f b β t) :
    Transports f (orElse a b) (Account.orElse a α β) s := by
  unfold orElse Account.orElse
  cases hs : a s with
  | none =>
    rw [transports_iff, ha.eq_none hs, hs]
    exact ⟨rfl, ha.account⟩
  | some o =>
    cases o with
    | matched t =>
      rw [transports_iff, ha.matched hs, hs]
      exact ⟨rfl, ha.account⟩
    | failed t =>
      have ht := hb t hs
      rw [transports_iff, ha.failed hs, hs, List.map_append, ← ha.account, ← ht.account]
      exact ⟨ht.outcome, rfl⟩

theorem transports_recover (ha : Transports f a α s) : Transports f (recover a) α s := by
  refine ⟨?_, ha.account⟩
  rw [recover, recover, ha.outcome, Option.map_map, Option.map_map]
  refine Option.map_congr fun o _ => ?_
  exact congrArg Outcome.matched (o.state_map f)

theorem transports_sequence (hf : State.Respected f) (ha : Transports f a α s) :
    Transports f (sequence a) α s := by
  refine ⟨?_, ha.account⟩
  unfold sequence
  rw [ha.outcome]
  cases a s with
  | none => rfl
  | some o =>
    cases o with
    | matched t => rfl
    | failed t => exact congrArg (fun u => some (Outcome.failed u)) (hf.rollback s t)

theorem transports_alternative (hf : State.Respected f)
    (ha : s.isAborted = false → Transports f a α s)
    (hb : ∀ t, s.isAborted = false → sequence a s = some (.failed t) → Transports f b β t) :
    Transports f (alternative a b) (Account.alternative a α β) s := by
  rw [transports_iff, alternative, alternative, Account.alternative, Account.alternative,
    hf.isAborted]
  by_cases haborted : s.isAborted = true
  · rw [if_pos haborted, if_pos haborted, if_pos haborted, if_pos haborted]
    exact ⟨rfl, rfl⟩
  · have hfree := Bool.eq_false_iff.2 haborted
    have helse := transports_orElse (transports_sequence hf (ha hfree)) fun t => hb t hfree
    rw [if_neg haborted, if_neg haborted, if_neg haborted, if_neg haborted]
    exact ⟨helse.outcome, helse.account⟩

/-- One turn of a loop: its occurrence where there is one, and the loop after it where it goes
on. -/
theorem transportsLoop_turn (hf : State.Respected f) {bounds : Notation.Repeat}
    {attempts count : Nat}
    (ha : ∀ left, attempts = left + 1 → isFull bounds count = false → s.isAborted = false →
      Transports f a α s)
    (hmore : ∀ left t, attempts = left + 1 → isFull bounds count = false → s.isAborted = false →
      sequence a s = some (.matched t) →
      ¬(mayStop bounds (count + 1) && t.offset == s.offset) = true →
      TransportsLoop f bounds a α left (count + 1) t) :
    TransportsLoop f bounds a α attempts count s := by
  by_cases hstop : (isFull bounds count || s.isAborted) = true
  · have hstop' : (isFull bounds count || (f s).isAborted) = true := by rwa [hf.isAborted]
    refine ⟨?_, ?_⟩
    · unfold occurrences
      rw [if_pos hstop, if_pos hstop']
      rfl
    · unfold Account.occurrences
      rw [if_pos hstop, if_pos hstop']
      rfl
  · have hstop' : ¬(isFull bounds count || (f s).isAborted) = true := by rwa [hf.isAborted]
    obtain ⟨hroom, hfree⟩ := Bool.or_eq_false_iff.1 (Bool.eq_false_iff.2 hstop)
    cases attempts with
    | zero =>
      refine ⟨?_, ?_⟩
      · unfold occurrences
        rw [if_neg hstop, if_neg hstop']
        rfl
      · unfold Account.occurrences
        rw [if_neg hstop, if_neg hstop']
        rfl
    | succ left =>
      have hseq := transports_sequence hf (ha left rfl hroom hfree)
      have hoffset (t : State R) : ((f t).offset == (f s).offset) = (t.offset == s.offset) :=
        Bool.eq_iff_iff.2 (by simpa only [beq_iff_eq] using hf.offset_eq_iff s t)
      rw [transportsLoop_iff, occurrences, occurrences, Account.occurrences, Account.occurrences,
        if_neg hstop, if_neg hstop', if_neg hstop, if_neg hstop', hseq.outcome]
      cases ht : sequence a s with
      | none => exact ⟨rfl, hseq.account⟩
      | some o =>
        cases o with
        | failed t => exact ⟨rfl, hseq.account⟩
        | matched t =>
          have hloop := hmore left t rfl hroom hfree ht
          dsimp only [Option.map_some, Outcome.map]
          rw [hoffset]
          split
          · exact ⟨rfl, hseq.account⟩
          · rename_i hon
            refine ⟨(hloop hon).outcome, ?_⟩
            rw [List.map_append, ← hseq.account, ← (hloop hon).account]

/-- A body that is carried over from every state is so in a loop: by induction on the attempts. -/
theorem transportsLoop_of_forall (hf : State.Respected f) (ha : ∀ s, Transports f a α s)
    (bounds : Notation.Repeat) (attempts count : Nat) (s : State R) :
    TransportsLoop f bounds a α attempts count s := by
  induction attempts generalizing count s with
  | zero => exact transportsLoop_turn hf (fun _ h => nomatch h) fun _ _ h => nomatch h
  | succ left ih =>
    refine transportsLoop_turn hf (fun _ _ _ _ => ha s) ?_
    intro left' t hleft _ _ _ _
    obtain rfl := Nat.succ.inj hleft
    exact ih (count + 1) t

theorem transports_repeated (hf : State.Respected f) {bounds : Notation.Repeat}
    (habort : ∀ cause, (f s).abort (.badNotation bounds.render cause) =
      f (s.abort (.badNotation bounds.render cause)))
    (hloop : TransportsLoop f bounds a α (attempts bounds s.rest) 0 s) :
    Transports f (repeated bounds a) (Account.repeated bounds a α) s := by
  rw [transports_iff, repeated, repeated, Account.repeated, Account.repeated]
  cases hvalid : bounds.validate with
  | error cause => exact (transports_iff ..).1 (transports_abort (habort _))
  | ok =>
    dsimp only
    rw [hf.rest]
    refine ⟨?_, hloop.account⟩
    rw [hloop.outcome, Option.map_map, Option.map_map]
    refine Option.map_congr fun turn _ => ?_
    obtain ⟨count, t⟩ := turn
    simp only [Function.comp_apply, Prod.map, id, hf.isAborted, hf.rollback]
    split <;> rfl

theorem transports_rule (hf : State.Respected f) {tag : R}
    (hroom : s.isAborted = false →
      ((f s).maxDepth ≤ (f s).diagnostics.depth ↔ s.maxDepth ≤ s.diagnostics.depth))
    (hfull : s.isAborted = false → s.maxDepth ≤ s.diagnostics.depth →
      (f s).abort (.recursionLimit (f s).maxDepth (f s).offset) =
        f (s.abort (.recursionLimit s.maxDepth s.offset)))
    (ha : s.isAborted = false → s.diagnostics.depth < s.maxDepth → Transports f a α (s.enter tag)) :
    Transports f (rule tag a) (Account.rule tag α) s := by
  rw [transports_iff, rule, rule, Account.rule, Account.rule, hf.isAborted]
  by_cases haborted : s.isAborted = true
  · rw [if_pos haborted, if_pos haborted, if_pos haborted, if_pos haborted]
    exact ⟨rfl, rfl⟩
  · have hfree := Bool.eq_false_iff.2 haborted
    rw [if_neg haborted, if_neg haborted, if_neg haborted, if_neg haborted]
    -- the rule is refused from both states, or entered from both
    by_cases hdeep : s.maxDepth ≤ s.diagnostics.depth
    · have hdeep' := (hroom hfree).2 hdeep
      rw [if_pos hdeep, if_pos hdeep, if_pos hdeep', if_pos hdeep']
      exact ⟨congrArg (fun u => some (Outcome.failed u)) (hfull hfree hdeep), rfl⟩
    · have hdeep' := mt (hroom hfree).1 hdeep
      have hbody := ha hfree (Nat.lt_of_not_le hdeep)
      rw [if_neg hdeep, if_neg hdeep, if_neg hdeep', if_neg hdeep', hf.enter, hbody.outcome,
        hbody.account]
      refine ⟨?_, rfl⟩
      cases a (s.enter tag) with
      | none => rfl
      | some o =>
        cases o with
        | failed t => exact congrArg (fun u => some (Outcome.failed u)) (hf.leaveFailed tag s t)
        | matched t =>
          dsimp only [Option.map_some, Outcome.map]
          rw [hf.isAborted, hf.leaveFailed, hf.leaveMatched]
          split <;> rfl

end Body
end Descent
