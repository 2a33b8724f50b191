/-
# Tracing has no say

A parse that keeps a log and one that does not go the same way.  They start from states
that differ in `State.untraced`, which takes away the log and the stack of the furthest
failure:

| with the log | without |
| --- | --- |
| the events so far | none |
| the furthest failure, with the rules active there | the furthest failure |
| cursor, nodes, active rules, limit, fatal error | the same |

No operator looks at what is taken away: whether a failure is the furthest one is decided
by its offset, and how many rules may still be entered by the active ones.  So the map
commutes with every operator (`State.respected_untraced`) and is carried through every
evaluation (`Expr.transports_untraced`), moment by moment.  The answers of a parse then
differ in the log and in that stack alone (`Parse.SameButTrace`).
-/

import Descent.Grammar
import Descent.Proofs.Transport

namespace Descent

variable {R : Type}

namespace Diagnostics

/-- The same record without a log and without the stack of the furthest failure. -/
def untraced (d : Diagnostics R) : Diagnostics R :=
  { d with log := none, furthest := d.furthest.map fun furthest => { furthest with stack := [] } }

theorem hasReached_untraced (d : Diagnostics R) (offset : Nat) :
    d.untraced.hasReached offset = d.hasReached offset := by
  unfold hasReached untraced
  cases d.furthest <;> rfl

theorem recordFailure_untraced (d : Diagnostics R) (offset : Nat) :
    d.untraced.recordFailure offset = (d.recordFailure offset).untraced := by
  rw [recordFailure, recordFailure, hasReached_untraced]
  split <;> rfl

end Diagnostics

namespace State

/-- The same state without a log and without the stack of the furthest failure. -/
def untraced (s : State R) : State R := { s with diagnostics := s.diagnostics.untraced }

theorem recordFailure_untraced (s : State R) :
    s.untraced.recordFailure = s.recordFailure.untraced :=
  congrArg (fun d => { s with diagnostics := d }) (s.diagnostics.recordFailure_untraced s.offset)

theorem respected_untraced : Respected (untraced (R := R)) where
  isAborted := fun _ => rfl
  rest := fun _ => rfl
  offset_eq_iff := fun _ _ => Iff.rfl
  take := fun _ _ => rfl
  recordFailure := recordFailure_untraced
  rollback := fun _ _ => rfl
  enter := fun _ _ => rfl
  leaveMatched := fun _ _ _ => rfl
  leaveFailed := fun _ _ _ => rfl

/-- A parse without a log starts where one with a log does, less the log. -/
theorem untraced_ofCursor (c : Cursor) (config : Config) :
    (ofCursor c (config.withTrace true) : State R).untraced =
      ofCursor c (config.withTrace false) := rfl

end State

theorem Probe.holds_untraced [DecidableEq R] (p : Probe R) (s : State R) :
    p.holds s.untraced = p.holds s := by
  cases p <;> rfl

namespace Body

open State (untraced)

theorem closed_transports_untraced [DecidableEq R] :
    Account.Closed fun (a : Body R) α => ∀ s, Transports untraced a α s where
  never := fun _ => transports_never
  succeed := fun _ => transports_succeed
  fail := fun _ => transports_fail
  test := fun p s => transports_test (p.holds_untraced s)
  abort := fun _ _ => transports_abort rfl
  pattern := fun p _ => transports_pattern State.respected_untraced p
  andThen := fun ha hb s => transports_andThen (ha s) fun t _ => hb t
  orElse := fun ha hb s => transports_orElse (ha s) fun t _ => hb t
  recover := fun ha s => transports_recover (ha s)
  sequence := fun ha s => transports_sequence State.respected_untraced (ha s)
  alternative := fun ha hb s =>
    transports_alternative State.respected_untraced (fun _ => ha s) fun t _ _ => hb t
  repeated := fun bounds _ _ ha s => transports_repeated State.respected_untraced (fun _ => rfl)
    (transportsLoop_of_forall State.respected_untraced ha bounds _ 0 s)
  rule := fun tag _ _ ha s => transports_rule State.respected_untraced (fun _ => Iff.rfl)
    (fun _ _ => rfl) fun _ _ => ha (s.enter tag)

end Body

namespace Parse

/-- Two answers that differ in the log alone, and in the stack of the furthest failure, the second
one without them. -/
inductive SameButTrace : Except Error (Parsed R) → Except Error (Parsed R) → Prop where
  | tree (node : Node R) (length : Nat) (events : List (Event R)) :
    SameButTrace (.ok ⟨node, length, some events⟩) (.ok ⟨node, length, none⟩)
  | noMatch (rule : Text) (furthest : Nat) (stack : List Text) (events : List (Event Text)) :
    SameButTrace (.error (.noMatch rule furthest stack (some events)))
      (.error (.noMatch rule furthest [] none))
  | error (e : Error) : SameButTrace (.error e) (.error e)

variable [Tag R]

/-- An outcome with a log, and the same one without it, have answers that differ in it alone. -/
theorem conclude_untraced (name input : Text) {o : Outcome R} {log : List (Event R)}
    (hlog : o.state.diagnostics.log = some log) :
    SameButTrace (conclude name input o) (conclude name input (o.map State.untraced)) := by
  have hfatal : (o.map State.untraced).state.fatal = o.state.fatal := by rw [Outcome.state_map]; rfl
  have hnodes : (o.map State.untraced).state.nodes = o.state.nodes := by rw [Outcome.state_map]; rfl
  have hevents : o.state.diagnostics.events? = some log.reverse := by
    rw [Diagnostics.events?, hlog]
    rfl
  have hnone : (o.map State.untraced).state.diagnostics.events? = none := by
    rw [Outcome.state_map]
    rfl
  unfold conclude
  dsimp only
  rw [hfatal, hnodes, Outcome.isMatched_map, hevents, hnone]
  cases o.state.fatal with
  | some e => exact .error e
  | none =>
    dsimp only
    split
    · split
      · exact .tree _ _ _
      · exact .error _
    · rw [noMatch, noMatch, hevents, hnone, Outcome.state_map]
      have hfurthest : o.state.untraced.diagnostics.furthest =
          o.state.diagnostics.furthest.map fun furthest => { furthest with stack := [] } := rfl
      rw [hfurthest]
      cases o.state.diagnostics.furthest with
      | none => exact .noMatch _ _ _ _
      | some furthest => exact .noMatch _ _ _ _

end Parse

namespace Expr

variable [DecidableEq R] {n : Nat}

/-- **No evaluation notices the log**, nor the stack of the furthest failure. -/
theorem transports_untraced (rules : Rules R n) (k : Nat) (e : Expr R n) (s : State R) :
    Body.Transports State.untraced (eval rules k e) (account rules k e) s :=
  Body.closed_transports_untraced.eval rules k e s

theorem body_untraced (rules : Rules R n) (e : Expr R n) (s : State R) :
    body rules e s.untraced = (body rules e s).map (Outcome.map State.untraced) :=
  (transports_untraced rules (nesting rules e s) e s).outcome

theorem trail_untraced (rules : Rules R n) (es : List (Expr R n)) (s : State R) :
    trail rules es s.untraced =
      (trail rules es s).map (List.map (Outcome.map State.untraced)) := by
  induction es generalizing s with
  | nil => rfl
  | cons e es ih =>
    rw [trail, trail, body_untraced]
    cases body rules e s with
    | none => rfl
    | some o =>
      simp only [Option.map_some, Option.bind_eq_bind, Option.bind_some, Outcome.state_map, ih]
      cases trail rules es o.state <;> rfl

/-- With a log at the start there is one at the end. -/
theorem exists_log {rules : Rules R n} {k : Nat} {e : Expr R n} {s : State R} {o : Outcome R}
    (h : eval rules k e s = some o) {log : List (Event R)} (hs : s.diagnostics.log = some log) :
    ∃ log', o.state.diagnostics.log = some log' := by
  obtain ⟨later, hlater⟩ := (eval_extends rules k e h).diagnostics.log
  rw [hs, Option.map_some] at hlater
  exact ⟨_, hlater⟩

theorem run_sameButTrace [Tag R] (rules : Rules R n) (e : Expr R n) (name input : Text)
    (config : Config) : Option.Rel Parse.SameButTrace
      (Parse.run name (body rules e) input (config.withTrace true))
      (Parse.run name (body rules e) input (config.withTrace false)) := by
  have hbody := body_untraced rules e (.start input (config.withTrace true))
  rw [State.start, State.untraced_ofCursor] at hbody
  rw [Parse.run, Parse.run, State.start, State.start, hbody, Option.map_map]
  cases ho : body rules e (.ofCursor (.start input) (config.withTrace true)) with
  | none => exact .none
  | some o =>
    obtain ⟨log, hlog⟩ := exists_log ho (show _ = some [] from rfl)
    exact .some (Parse.conclude_untraced name input hlog)

/-- **Tracing never influences the parse.**  From any place of any input, expressions that are
applied one after another have the same outcomes with a log and without one, but for the log
itself and the stack of the furthest failure; and the same happens in between.  A parse by
name or by tag gives the same answer, but for these two. -/
theorem tracing_changes_nothing [Tag R] (rules : Rules R n) :
    (∀ (c : Cursor) (config : Config) (es : List (Expr R n)),
        trail rules es (.ofCursor c (config.withTrace false)) =
          (trail rules es (.ofCursor c (config.withTrace true))).map
            (List.map (Outcome.map State.untraced))) ∧
      (∀ (c : Cursor) (config : Config) (e : Expr R n),
        moments rules e (.ofCursor c (config.withTrace false)) =
          (moments rules e (.ofCursor c (config.withTrace true))).map (Moment.map State.untraced)) ∧
      (∀ (g : Grammar R) (name input : Text) (config : Config),
        (∀ b, g.get name = .ok b → ∃ e, b = body rules e) →
          Option.Rel Parse.SameButTrace (g.parseWith name input (config.withTrace true))
            (g.parseWith name input (config.withTrace false))) ∧
      ∀ (bodyOf : R → Body R) (tag : R) (input : Text) (config : Config),
        (∃ e, bodyOf tag = body rules e) →
          Option.Rel Parse.SameButTrace (Parse.withTag bodyOf tag input (config.withTrace true))
            (Parse.withTag bodyOf tag input (config.withTrace false)) := by
  refine ⟨fun c config es => ?_, fun c config e => ?_, fun g name input config hg => ?_,
    fun bodyOf tag input config htag => ?_⟩
  · rw [← State.untraced_ofCursor, trail_untraced]
  · rw [← State.untraced_ofCursor]
    exact (transports_untraced rules _ e _).account
  · rw [Grammar.parseWith, Grammar.parseWith]
    cases hget : g.get name with
    | error e => exact .some (.error e)
    | ok b =>
      obtain ⟨e, rfl⟩ := hg b hget
      exact run_sameButTrace rules e name input config
  · obtain ⟨e, htag⟩ := htag
    rw [Parse.withTag, Parse.withTag, htag]
    exact run_sameButTrace rules e (Tag.name tag) input config

/-- A rule that fails at its first terminal: the hypotheses of `tracing_changes_nothing` are
satisfiable where the answers do differ. -/
theorem tracing_changes_nothing_noMatch :
    let _ : Tag Unit := ⟨fun _ => ['r']⟩
    let rules : Rules Unit 0 := Fin.elim0
    let e : Expr Unit 0 := .rule () (.pattern (.character 'b'))
    let g : Grammar Unit := ⟨[(⟨['g']⟩, body rules e)]⟩
    let config : Config := .standard
    g.get ['g'] = .ok (body rules e) ∧
      g.parseWith ['g'] ['a'] (config.withTrace true) = some (.error (.noMatch ['g'] 0 [['r']]
        (some [.enter ['r'] 0, .leave ['r'] 0 0 false]))) ∧
      Option.Rel Parse.SameButTrace (g.parseWith ['g'] ['a'] (config.withTrace true))
        (g.parseWith ['g'] ['a'] (config.withTrace false)) := by
  intro _ rules e g config
  have hget : g.get ['g'] = .ok (body rules e) := rfl
  refine ⟨hget, rfl, (tracing_changes_nothing rules).2.2.1 g ['g'] ['a'] config fun b hb => ?_⟩
  exact ⟨e, Except.ok.inj (hb.symm.trans hget)⟩

end Expr
end Descent
