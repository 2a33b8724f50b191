/-
# A parse only adds

Whether a body matches or fails, the state that it leaves extends the one that it
was given (`State.Extends`, `Body.Extending`):

| part | in the later state |
| --- | --- |
| input, limit | the same |
| cursor | there or further on |
| nodes found | the same ones first |
| active rules | the same |
| log | the same events first |
| furthest failure | there or further on |
| fatal error | the same, if there was one |

A failure may leave a cursor that has advanced and nodes that were added, so the
relation speaks of both outcomes at once.  A rule swaps the list of nodes and pushes
a frame, and its body extends the state inside; leaving it takes both back
(`Extends.leaveMatched`, `Extends.leaveFailed`).  With older nodes untouched, cutting
the list at an earlier length gives the earlier list (`Extends.rollback_eq`).

The lists of a state grow at their heads, so the relation is about suffixes.  Said of
nodes and events in the order in which they are shown, it is `Expr.evaluation_conserves`.
-/

import Descent.Proofs.Outcomes
import Descent.Proofs.Taking

namespace Descent

variable {R : Type}

namespace Diagnostics

/-- The later record has the same active rules, and has lost nothing. -/
structure Extends (d d' : Diagnostics R) : Prop where
  active : d'.active = d.active
  log : ∃ later, d'.log = d.log.map (later ++ ·)
  furthest : ∀ offset, d.hasReached offset = true → d'.hasReached offset = true

theorem Extends.refl (d : Diagnostics R) : d.Extends d where
  active := rfl
  log := ⟨[], by simp only [List.nil_append, Option.map_id']⟩
  furthest := fun _ h => h

theorem Extends.trans {d d' d'' : Diagnostics R} (h : d.Extends d') (h' : d'.Extends d'') :
    d.Extends d'' where
  active := h'.active.trans h.active
  log := by
    obtain ⟨later, hlog⟩ := h.log
    obtain ⟨later', hlog'⟩ := h'.log
    refine ⟨later' ++ later, ?_⟩
    rw [hlog', hlog, Option.map_map]
    simp only [Function.comp_def, List.append_assoc]
  furthest := fun offset hoff => h'.furthest offset (h.furthest offset hoff)

theorem hasReached_iff {d : Diagnostics R} {offset : Nat} :
    d.hasReached offset = true ↔ ∃ furthest, d.furthest = some furthest ∧ offset ≤ furthest.offset := by
  unfold hasReached
  cases d.furthest with
  | none => simp only [Bool.false_eq_true, reduceCtorEq, false_and, exists_false]
  | some furthest => simp only [decide_eq_true_eq, Option.some.injEq, exists_eq_left']

theorem extends_recordFailure (d : Diagnostics R) (offset : Nat) :
    d.Extends (d.recordFailure offset) := by
  unfold recordFailure
  split
  · exact .refl d
  · rename_i hnew
    refine ⟨rfl, (Extends.refl d).log, fun n hn => ?_⟩
    obtain ⟨furthest, hfurthest, hle⟩ := hasReached_iff.1 hn
    -- the failure before was nearer, or this one would not have been recorded
    have hlt : furthest.offset < offset := Nat.lt_of_not_le fun hge =>
      hnew (hasReached_iff.2 ⟨furthest, hfurthest, hge⟩)
    exact hasReached_iff.2 ⟨_, rfl, Nat.le_trans hle (Nat.le_of_lt hlt)⟩

/-- Leaving a rule after its body takes back the frame that entering it pushed. -/
theorem Extends.pop {d d' : Diagnostics R} {rule : R} {start : Nat}
    (h : (d.push rule start).Extends d') (stop : Nat) (matched : Bool) :
    d.Extends (d'.pop rule stop matched) where
  active := by
    have hactive : d'.active.tail = (d.push rule start).active.tail := by rw [h.active]
    exact hactive
  log := by
    obtain ⟨later, hlog⟩ := h.log
    obtain ⟨event, hevent⟩ :
        ∃ event, (d'.pop rule stop matched).log = d'.log.map (event :: ·) := ⟨_, rfl⟩
    refine ⟨event :: (later ++ [.enter rule start]), ?_⟩
    rw [hevent, hlog]
    cases hd : d.log with
    | none => simp only [push, note, hd, Option.map_none]
    | some log => simp only [push, note, hd, Option.map_some, List.cons_append,
        List.append_assoc, List.nil_append]
  furthest := h.furthest

/-- The log has the same events first, and there is one just when there was one. -/
theorem Extends.exists_events?_eq {d d' : Diagnostics R} (h : d.Extends d') :
    ∃ later, d'.events? = d.events?.map (· ++ later) := by
  obtain ⟨later, hlog⟩ := h.log
  refine ⟨later.reverse, ?_⟩
  unfold events?
  rw [hlog, Option.map_map, Option.map_map]
  simp only [Function.comp_def, List.reverse_append]

/-- The furthest failure stays where it was or moves on. -/
theorem Extends.exists_furthest {d d' : Diagnostics R} (h : d.Extends d') {furthest : Furthest R}
    (hfurthest : d.furthest = some furthest) :
    ∃ furthest', d'.furthest = some furthest' ∧ furthest.offset ≤ furthest'.offset :=
  hasReached_iff.1 (h.furthest _ (hasReached_iff.2 ⟨furthest, hfurthest, Nat.le_refl _⟩))

end Diagnostics

namespace State

/-- The later state has the same input, limit and active rules, and has lost nothing. -/
structure Extends (s t : State R) : Prop where
  cursor : ∃ taken, s.cursor.Takes taken t.cursor
  found : s.found <:+ t.found
  maxDepth : t.maxDepth = s.maxDepth
  diagnostics : s.diagnostics.Extends t.diagnostics
  fatal : ∀ e, s.fatal = some e → t.fatal = some e

namespace Extends

variable {s t u : State R}

theorem refl (s : State R) : s.Extends s where
  cursor := ⟨[], .refl s.cursor⟩
  found := List.suffix_refl s.found
  maxDepth := rfl
  diagnostics := .refl s.diagnostics
  fatal := fun _ h => h

theorem trans (h : s.Extends t) (h' : t.Extends u) : s.Extends u where
  cursor := by
    obtain ⟨taken, htaken⟩ := h.cursor
    obtain ⟨taken', htaken'⟩ := h'.cursor
    exact ⟨taken ++ taken', htaken.trans htaken'⟩
  found := h.found.trans h'.found
  maxDepth := h'.maxDepth.trans h.maxDepth
  diagnostics := h.diagnostics.trans h'.diagnostics
  fatal := fun e he => h'.fatal e (h.fatal e he)

theorem input_eq (h : s.Extends t) : t.cursor.input = s.cursor.input := by
  obtain ⟨taken, htaken⟩ := h.cursor
  exact htaken.input

/-- The older nodes come first. -/
theorem nodes_prefix (h : s.Extends t) : s.nodes <+: t.nodes :=
  List.reverse_prefix.2 h.found

theorem offset_le (h : s.Extends t) : s.offset ≤ t.offset := by
  obtain ⟨taken, htaken⟩ := h.cursor
  exact htaken.offset_le

theorem depth_eq (h : s.Extends t) : t.diagnostics.depth = s.diagnostics.depth := by
  unfold Diagnostics.depth
  rw [h.diagnostics.active]

theorem stack_eq (h : s.Extends t) : t.diagnostics.stack = s.diagnostics.stack := by
  unfold Diagnostics.stack
  rw [h.diagnostics.active]

/-- A parse that is not given up was not given up before. -/
theorem isAborted_eq_false (h : s.Extends t) (ht : t.isAborted = false) : s.isAborted = false := by
  unfold isAborted at ht ⊢
  cases hs : s.fatal with
  | none => rfl
  | some e =>
    rw [h.fatal e hs] at ht
    exact ht

/-- **Cutting at the earlier length gives the earlier nodes.** -/
theorem rollback_eq (h : s.Extends t) :
    t.rollback s.cursor s.found.length = { t with cursor := s.cursor, found := s.found } := by
  unfold rollback
  rw [← List.suffix_iff_eq_drop.1 h.found]

theorem rollback (h : s.Extends t) : s.Extends (t.rollback s.cursor s.found.length) := by
  rw [h.rollback_eq]
  exact ⟨(refl s).cursor, List.suffix_refl s.found, h.maxDepth, h.diagnostics, h.fatal⟩

theorem leaveMatched {tag : R} (h : (s.enter tag).Extends t) :
    s.Extends (t.leaveMatched tag s.cursor s.found) where
  cursor := h.cursor
  found := List.suffix_cons _ s.found
  maxDepth := h.maxDepth
  diagnostics := h.diagnostics.pop _ _
  fatal := h.fatal

theorem leaveFailed {tag : R} (h : (s.enter tag).Extends t) :
    s.Extends (t.leaveFailed tag s.cursor s.found) where
  cursor := ⟨[], .refl s.cursor⟩
  found := List.suffix_refl s.found
  maxDepth := h.maxDepth
  diagnostics := h.diagnostics.pop _ _
  fatal := h.fatal

end Extends

variable {s : State R}

theorem extends_abort (s : State R) (e : Error) : s.Extends (s.abort e) where
  cursor := (Extends.refl s).cursor
  found := List.suffix_refl s.found
  maxDepth := rfl
  diagnostics := .refl s.diagnostics
  fatal := fun first hfirst => by
    unfold abort
    rw [hfirst]
    rfl

theorem extends_recordFailure (s : State R) : s.Extends s.recordFailure where
  cursor := (Extends.refl s).cursor
  found := List.suffix_refl s.found
  maxDepth := rfl
  diagnostics := s.diagnostics.extends_recordFailure s.offset
  fatal := fun _ h => h

theorem extends_takes {taken : Text} {cursor : Cursor} (h : s.cursor.Takes taken cursor) :
    s.Extends { s with cursor } :=
  { Extends.refl s with cursor := ⟨taken, h⟩ }

end State

namespace Body

open State

/-- Whether the body matches or fails, it leaves an extension of the state it is given. -/
def Extending (a : Body R) : Prop := ∀ ⦃s o⦄, a s = some o → s.Extends o.state

variable {a b : Body R}

theorem extending_pattern (p : Pattern) : Extending (pattern p : Body R) := by
  intro s o h
  rcases pattern_eq_some h with ⟨-, rfl⟩ | ⟨-, cursor, hc, rfl⟩ | ⟨-, -, rfl⟩
  · exact .refl s
  · obtain ⟨taken, -, htaken⟩ := Pattern.match?_eq_some_iff.1 hc
    exact extends_takes htaken
  · exact s.extends_recordFailure

theorem extending_andThen (ha : Extending a) (hb : Extending b) : Extending (andThen a b) := by
  intro s o h
  rcases andThen_eq_some h with ⟨t, hat, hbt⟩ | ⟨t, hat, rfl⟩
  · exact (ha hat).trans (hb hbt)
  · exact ha hat

theorem extending_orElse (ha : Extending a) (hb : Extending b) : Extending (orElse a b) := by
  intro s o h
  rcases orElse_eq_some h with ⟨t, hat, hbt⟩ | ⟨t, hat, rfl⟩
  · exact (ha hat).trans (hb hbt)
  · exact ha hat

theorem extending_sequence (ha : Extending a) : Extending (sequence a) := by
  intro s o h
  rcases sequence_eq_some h with ⟨t, hat, rfl⟩ | ⟨t, hat, rfl⟩
  · exact ha hat
  · exact (ha hat).rollback

theorem Loop.extends {bounds : Notation.Repeat} {attempts count total : Nat} {s t : State R}
    (h : Loop bounds a attempts count s total t) (ha : Extending a) : s.Extends t :=
  h.keeps (P := fun t => s.Extends t) (fun hs h => hs.trans (extending_sequence ha h)) (.refl s)

theorem extending_repeated (bounds : Notation.Repeat) (ha : Extending a) :
    Extending (repeated bounds a) := by
  intro s o h
  rcases repeated_eq_some h with ⟨cause, -, rfl⟩ | ⟨-, count, t, ht, ⟨-, -, rfl⟩ | ⟨-, rfl⟩⟩
  · exact s.extends_abort _
  · exact ht.extends ha
  · exact (ht.extends ha).rollback

theorem extending_rule (tag : R) (ha : Extending a) : Extending (rule tag a) := by
  intro s o h
  rcases rule_eq_some h with ⟨-, rfl⟩ | ⟨-, -, rfl⟩ | ⟨-, -, p, hp, ⟨-, -, rfl⟩ | ⟨-, rfl⟩⟩
  · exact .refl s
  · exact s.extends_abort _
  · exact (ha hp).leaveMatched
  · exact (ha hp).leaveFailed

theorem closed_extending : Closed (Extending (R := R)) where
  never := fun _ _ h => nomatch h
  succeed := fun s _ h => Option.some.inj h ▸ .refl s
  fail := fun s _ h => Option.some.inj h ▸ .refl s
  test := fun p s o h => by
    obtain rfl := Option.some.inj h
    split <;> exact .refl s
  abort := fun e s _ h => Option.some.inj h ▸ s.extends_abort e
  pattern := extending_pattern
  andThen := extending_andThen
  orElse := extending_orElse
  recover := fun ha s o h => by
    obtain ⟨p, hp, rfl⟩ := recover_eq_some h
    show s.Extends p.state
    exact ha hp
  sequence := extending_sequence
  alternative := fun ha hb s o h => by
    rcases alternative_eq_some h with ⟨-, rfl⟩ | ⟨-, h⟩
    · exact .refl s
    · exact extending_orElse (extending_sequence ha) hb h
  repeated := fun bounds _ ha => extending_repeated bounds ha
  rule := fun tag _ ha => extending_rule tag ha

end Body

namespace Expr

variable [DecidableEq R] {n : Nat}

/-- **Evaluation only adds.**  Whatever expression is applied to a state, and whether it matches
or fails, the state that it leaves extends the one it was given. -/
theorem eval_extends (rules : Rules R n) (k : Nat) (e : Expr R n) :
    Body.Extending (eval rules k e) :=
  Body.closed_extending.eval rules k e

/-- **What was there stays.**  For any expression and any state, and whether the expression matches
or fails: the input and the limit are the same, the cursor has not gone back, the nodes begin with
the ones that were there, the stack of active rules is the same, the log begins with the events
that were there, the furthest failure is no nearer, and an error that was set is still the one. -/
theorem evaluation_conserves (rules : Rules R n) (k : Nat) (e : Expr R n) {s : State R}
    {o : Outcome R} (h : eval rules k e s = some o) :
    o.state.cursor.input = s.cursor.input ∧
      o.state.maxDepth = s.maxDepth ∧
      s.offset ≤ o.state.offset ∧
      s.nodes <+: o.state.nodes ∧
      o.state.diagnostics.stack = s.diagnostics.stack ∧
      (∃ later, o.state.diagnostics.events? = s.diagnostics.events?.map (· ++ later)) ∧
      (∀ furthest, s.diagnostics.furthest = some furthest →
        ∃ furthest', o.state.diagnostics.furthest = some furthest' ∧
          furthest.offset ≤ furthest'.offset) ∧
      ∀ error, s.fatal = some error → o.state.fatal = some error := by
  have hext : s.Extends o.state := eval_extends rules k e h
  exact ⟨hext.input_eq, hext.maxDepth, hext.offset_le, hext.nodes_prefix, hext.stack_eq,
    hext.diagnostics.exists_events?_eq, fun _ => hext.diagnostics.exists_furthest, hext.fatal⟩

/-- Inside a rule, after a node and a failure, a chain that is not wrapped fails behind a second
node; and after giving up, a recovery matches: the hypotheses of `evaluation_conserves` are
satisfiable where a failure has left progress, and where there is an error to keep. -/
theorem evaluation_conserves_unwrapped :
    let input : Text := ['a', 'b', 'c']
    let older : Node Bool := ⟨true, ⟨input, 0, 1⟩, []⟩
    let s : State Bool :=
      { cursor := ⟨input, 1, ['b', 'c']⟩, found := [older], maxDepth := 4
        diagnostics :=
          { active := [⟨false, 0⟩]
            log := some [.leave true 0 1 true, .enter true 0, .enter false 0]
            furthest := some ⟨1, [false]⟩ }
        fatal := none }
    let e : Expr Bool 0 :=
      .orElse (chain [.rule true (.pattern (.character 'b')), .pattern (.character 'x')]) .fail
    let given : State Bool := s.abort (.unknownRule ['m'])
    (∃ t, eval Fin.elim0 0 e s = some (.failed t) ∧ t.offset = 2 ∧ t.nodes.length = 2 ∧
        t.diagnostics.furthest = some ⟨2, [false]⟩ ∧
        s.nodes <+: t.nodes ∧ t.diagnostics.stack = s.diagnostics.stack ∧
        (∃ later, t.diagnostics.events? = s.diagnostics.events?.map (· ++ later)) ∧
        ∃ furthest', t.diagnostics.furthest = some furthest' ∧ 1 ≤ furthest'.offset) ∧
      ∃ t, eval Fin.elim0 0 (.recover (.abort (.unknownRule ['k']))) given = some (.matched t) ∧
        given.fatal = some (.unknownRule ['m']) ∧ t.fatal = some (.unknownRule ['m']) := by
  intro input older s e given
  constructor
  · obtain ⟨t, ht, hoffset, hlength, hreached⟩ : ∃ t, eval Fin.elim0 0 e s = some (.failed t) ∧
        t.offset = 2 ∧ t.nodes.length = 2 ∧ t.diagnostics.furthest = some ⟨2, [false]⟩ :=
      ⟨_, rfl, rfl, rfl, rfl⟩
    obtain ⟨-, -, -, hnodes, hstack, hevents, hfurthest, -⟩ := evaluation_conserves Fin.elim0 0 e ht
    exact ⟨t, ht, hoffset, hlength, hreached, hnodes, hstack, hevents, hfurthest _ rfl⟩
  · obtain ⟨t, ht⟩ : ∃ t,
        eval Fin.elim0 0 (.recover (.abort (.unknownRule ['k']))) given = some (.matched t) := ⟨_, rfl⟩
    obtain ⟨-, -, -, -, -, -, -, hfatal⟩ := evaluation_conserves Fin.elim0 0 _ ht
    exact ⟨t, ht, rfl, hfatal _ rfl⟩

end Expr
end Descent
