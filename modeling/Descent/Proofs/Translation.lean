/-
# A text before the input has no say

An expression looks at what follows the cursor, and never at what stands before it.  So
an evaluation that starts after a text `u` in `u ++ t` goes the same way as one that starts
at the beginning of `t`, and all its places are later by the bytes of `u`:

| part of the state | when `u` stands before the input |
| --- | --- |
| offset of the cursor, starts and ends of nodes | later by the bytes of `u` |
| places of active rules, of the log and of the furthest failure | later by the bytes of `u` |
| place at which a rule is refused | later by the bytes of `u` |
| rest, texts and shapes of nodes, rules, all other errors | the same |

`State.precededBy` is this map.  A match takes a text at the head of the rest, which the map
leaves alone (`Pattern.match?_precededBy`), and it adds one number to all places, so it keeps
their order and commutes with every operator (`State.respected_precededBy`).

Not carried over is a body that itself names a place: one that asks where a rule was entered,
or that gives the parse up in the name of a limit at some place.  All others are `Placeless`.
-/

import Descent.Proofs.Placement
import Descent.Proofs.Transport

namespace Descent

namespace Text

/-- A cut after a text and some bytes more is a cut of what follows the text. -/
theorem drop?_append_add (u t : Text) (n : Nat) : drop? (byteLength u + n) (u ++ t) = drop? n t := by
  induction u with
  | nil => rw [byteLength_nil, Nat.zero_add, List.nil_append]
  | cons c u ih => rw [byteLength_cons, List.cons_append, Nat.add_assoc, drop?_cons, ih]

theorem slice?_append_add (u t : Text) (start stop : Nat) :
    slice? (u ++ t) (byteLength u + start) (byteLength u + stop) = slice? t start stop := by
  have hlength : byteLength u + stop - (byteLength u + start) = stop - start := by omega
  have hle : byteLength u + start ≤ byteLength u + stop ↔ start ≤ stop := by omega
  simp only [slice?, drop?_append_add, hlength, hle]

end Text

variable {R : Type}

namespace Cursor

/-- The same place when a text stands before the input. -/
def precededBy (u : Text) (c : Cursor) : Cursor := ⟨u ++ c.input, u.byteLength + c.offset, c.rest⟩

theorem startingAt_append (u t : Text) :
    startingAt (u ++ t) u.byteLength = .ok ((start t).precededBy u) := by
  unfold startingAt
  rw [Text.drop?_append]
  rfl

theorem Takes.precededBy {c c' : Cursor} {taken : Text} (h : c.Takes taken c') (u : Text) :
    (c.precededBy u).Takes taken (c'.precededBy u) where
  input := congrArg (u ++ ·) h.input
  rest := h.rest
  offset := by
    show u.byteLength + c'.offset = u.byteLength + c.offset + taken.byteLength
    rw [h.offset, Nat.add_assoc]

end Cursor

/-- A pattern looks at what follows the cursor alone. -/
theorem Pattern.match?_precededBy (p : Pattern) (u : Text) (c : Cursor) :
    p.match? (c.precededBy u) = (p.match? c).map (Cursor.precededBy u) := by
  cases hc : p.match? c with
  | none =>
    rw [Option.map_none, match?_eq_none_iff]
    exact fun taken rest hrest => match?_eq_none_iff.1 hc taken rest hrest
  | some c' =>
    obtain ⟨taken, hp, htaken⟩ := match?_eq_some_iff.1 hc
    exact match?_eq_some_iff.2 ⟨taken, hp, htaken.precededBy u⟩

namespace Span

/-- The same stretch when a text stands before the input. -/
def precededBy (u : Text) (s : Span) : Span :=
  ⟨u ++ s.input, u.byteLength + s.start, u.byteLength + s.stop⟩

theorem text_precededBy (u : Text) (s : Span) : (s.precededBy u).text = s.text :=
  congrArg (Option.getD · []) (Text.slice?_append_add u s.input s.start s.stop)

end Span

namespace Node

mutual

/-- The same node when a text stands before the input. -/
def precededBy (u : Text) : Node R → Node R
  | ⟨rule, span, children⟩ => ⟨rule, span.precededBy u, allPrecededBy u children⟩

/-- The same nodes when a text stands before the input. -/
def allPrecededBy (u : Text) : List (Node R) → List (Node R)
  | [] => []
  | n :: ns => precededBy u n :: allPrecededBy u ns

end

theorem allPrecededBy_eq_map (u : Text) (ns : List (Node R)) :
    allPrecededBy u ns = ns.map (precededBy u) := by
  induction ns with
  | nil => rfl
  | cons n ns ih => rw [allPrecededBy, ih, List.map_cons]

theorem precededBy_mk (u : Text) (rule : R) (span : Span) (children : List (Node R)) :
    precededBy u ⟨rule, span, children⟩ =
      ⟨rule, span.precededBy u, children.map (precededBy u)⟩ := by
  rw [precededBy, allPrecededBy_eq_map]

mutual

/-- A tree keeps its shape, and each of its nodes is the same one after the text. -/
theorem preorder_precededBy (u : Text) :
    (n : Node R) → preorder (n.precededBy u) = (preorder n).map (precededBy u)
  | ⟨rule, span, children⟩ => by
    rw [precededBy, preorder, preorder, preorderAll_allPrecededBy u children, List.map_cons,
      precededBy]

theorem preorderAll_allPrecededBy (u : Text) :
    (ns : List (Node R)) → preorderAll (allPrecededBy u ns) = (preorderAll ns).map (precededBy u)
  | [] => rfl
  | n :: ns => by
    rw [allPrecededBy, preorderAll, preorderAll, preorder_precededBy u n,
      preorderAll_allPrecededBy u ns, List.map_append]

end

theorem text_precededBy (u : Text) (n : Node R) : (n.precededBy u).text = n.text := by
  obtain ⟨rule, span, children⟩ := n
  rw [precededBy]
  exact span.text_precededBy u

mutual

/-- A node and the same one after a text are equal. -/
theorem same_precededBy [DecidableEq R] (u : Text) : (n : Node R) → same n (n.precededBy u) = true
  | ⟨rule, span, children⟩ => by
    have htext : span.sameText (span.precededBy u) = true := by
      rw [Span.sameText, span.text_precededBy u]
      exact beq_self_eq_true _
    rw [precededBy, same, htext, sameAll_allPrecededBy u children, decide_eq_true rfl]
    rfl

theorem sameAll_allPrecededBy [DecidableEq R] (u : Text) :
    (ns : List (Node R)) → sameAll ns (allPrecededBy u ns) = true
  | [] => rfl
  | n :: ns => by
    rw [allPrecededBy, sameAll, same_precededBy u n, sameAll_allPrecededBy u ns]
    rfl

end

end Node

/-- The same frame with its place so many bytes later. -/
def Frame.laterBy (bytes : Nat) (f : Frame R) : Frame R := ⟨f.rule, bytes + f.start⟩

/-- The same event with its places so many bytes later. -/
def Event.laterBy (bytes : Nat) : Event R → Event R
  | enter rule start => enter rule (bytes + start)
  | leave rule start stop matched => leave rule (bytes + start) (bytes + stop) matched

/-- The same failure so many bytes later. -/
def Furthest.laterBy (bytes : Nat) (f : Furthest R) : Furthest R := ⟨bytes + f.offset, f.stack⟩

/-- The same error; where a rule was refused, with its place so many bytes later. -/
def Error.laterBy (bytes : Nat) : Error → Error
  | recursionLimit limit offset => recursionLimit limit (bytes + offset)
  | e => e

theorem Error.laterBy_eq_self {e : Error} (h : ∀ limit offset, e ≠ recursionLimit limit offset)
    (bytes : Nat) : e.laterBy bytes = e := by
  unfold laterBy
  split
  · exact absurd rfl (h _ _)
  · rfl

namespace Diagnostics

/-- The same record with all its places so many bytes later. -/
def laterBy (bytes : Nat) (d : Diagnostics R) : Diagnostics R where
  active := d.active.map (Frame.laterBy bytes)
  log := d.log.map (List.map (Event.laterBy bytes))
  furthest := d.furthest.map (Furthest.laterBy bytes)

variable (bytes : Nat) (d : Diagnostics R)

theorem depth_laterBy : (d.laterBy bytes).depth = d.depth := List.length_map _

theorem isTracing_laterBy : (d.laterBy bytes).isTracing = d.isTracing := Option.isSome_map

/-- The rules that are active stay the same, their places apart. -/
theorem rules_laterBy : (d.laterBy bytes).stack.map Frame.rule = d.stack.map Frame.rule := by
  rw [stack, stack, laterBy, ← List.map_reverse, List.map_map]
  rfl

theorem push_laterBy (rule : R) (start : Nat) :
    (d.laterBy bytes).push rule (bytes + start) = (d.push rule start).laterBy bytes := by
  obtain ⟨active, log, furthest⟩ := d
  cases log <;> rfl

theorem pop_laterBy (rule : R) (stop : Nat) (matched : Bool) :
    (d.laterBy bytes).pop rule (bytes + stop) matched = (d.pop rule stop matched).laterBy bytes := by
  obtain ⟨active, log, furthest⟩ := d
  cases active <;> cases log <;> rfl

theorem hasReached_laterBy (offset : Nat) :
    (d.laterBy bytes).hasReached (bytes + offset) = d.hasReached offset := by
  unfold hasReached laterBy
  cases d.furthest with
  | none => rfl
  | some furthest => exact decide_eq_decide.2 (Nat.add_le_add_iff_left (n := bytes))

theorem recordFailure_laterBy (offset : Nat) :
    (d.laterBy bytes).recordFailure (bytes + offset) = (d.recordFailure offset).laterBy bytes := by
  rw [recordFailure, recordFailure, hasReached_laterBy, isTracing_laterBy, rules_laterBy]
  split <;> rfl

end Diagnostics

namespace State

/-- The same state when a text stands before the input. -/
def precededBy (u : Text) (s : State R) : State R where
  cursor := s.cursor.precededBy u
  found := s.found.map (Node.precededBy u)
  maxDepth := s.maxDepth
  diagnostics := s.diagnostics.laterBy u.byteLength
  fatal := s.fatal.map (Error.laterBy u.byteLength)

variable (u : Text)

theorem nodes_precededBy (s : State R) : (s.precededBy u).nodes = s.nodes.map (Node.precededBy u) :=
  List.map_reverse.symm

/-- A parse that starts after `u` starts as one of what follows `u`, with `u` before it. -/
theorem startingAt_append (t : Text) (config : Config) :
    startingAt (u ++ t) u.byteLength config = .ok ((start t config : State R).precededBy u) := by
  unfold startingAt
  rw [Cursor.startingAt_append]
  cases htrace : config.trace <;>
    simp only [Except.map, start, ofCursor, precededBy, Diagnostics.new, Diagnostics.laterBy, htrace,
      List.map_nil, Option.map_none, Option.map_some, if_true, if_false, Bool.false_eq_true]

theorem abort_precededBy (s : State R) (e : Error) :
    (s.precededBy u).abort (e.laterBy u.byteLength) = (s.abort e).precededBy u := by
  obtain ⟨cursor, found, maxDepth, diagnostics, fatal⟩ := s
  cases fatal <;> rfl

theorem leaveMatched_precededBy (tag : R) (s t : State R) :
    (t.precededBy u).leaveMatched tag (s.precededBy u).cursor (s.precededBy u).found =
      (t.leaveMatched tag s.cursor s.found).precededBy u := by
  have hnode : (⟨tag, ⟨u ++ t.cursor.input, u.byteLength + s.offset, u.byteLength + t.offset⟩,
      (t.precededBy u).nodes⟩ : Node R) =
        Node.precededBy u ⟨tag, ⟨t.cursor.input, s.offset, t.offset⟩, t.nodes⟩ := by
    rw [Node.precededBy_mk, nodes_precededBy]
    rfl
  show State.mk (t.cursor.precededBy u)
    (⟨tag, ⟨u ++ t.cursor.input, u.byteLength + s.offset, u.byteLength + t.offset⟩,
      (t.precededBy u).nodes⟩ :: s.found.map (Node.precededBy u)) t.maxDepth
    ((t.diagnostics.laterBy u.byteLength).pop tag (u.byteLength + t.offset) true)
    (t.fatal.map (Error.laterBy u.byteLength)) = _
  rw [hnode, Diagnostics.pop_laterBy]
  rfl

/-- **All that operators look at is kept, and all that they do commutes with the map.** -/
theorem respected_precededBy : Respected (precededBy u : State R → State R) where
  isAborted := fun s => Option.isSome_map
  rest := fun _ => rfl
  offset_eq_iff := fun _ _ => Nat.add_left_cancel_iff
  take := fun p s => by
    show Option.map _ (p.match? (s.cursor.precededBy u)) = _
    rw [p.match?_precededBy, Option.map_map]
    rfl
  recordFailure := fun s => congrArg (fun d => { s.precededBy u with diagnostics := d })
    (s.diagnostics.recordFailure_laterBy u.byteLength s.offset)
  rollback := fun s t => by
    unfold rollback precededBy
    rw [List.length_map, List.length_map, List.map_drop]
  enter := fun tag s => congrArg (fun d => { s.precededBy u with found := [], diagnostics := d })
    (s.diagnostics.push_laterBy u.byteLength tag s.offset)
  leaveMatched := leaveMatched_precededBy u
  leaveFailed := fun tag s t => congrArg
    (fun d => { t.precededBy u with
      cursor := s.cursor.precededBy u, found := s.found.map (Node.precededBy u), diagnostics := d })
    (t.diagnostics.pop_laterBy u.byteLength tag s.offset false)

end State

namespace Expr

variable {n : Nat}

/-- The expression names no place: it does not ask where a rule was entered, and gives the parse up
for no limit at a place. -/
def Placeless : Expr R n → Prop
  | succeed | fail | pattern _ | written _ | ref _ => True
  | test p => ∀ index tag start, p ≠ .frameIs index tag start
  | abort e => ∀ limit offset, e ≠ .recursionLimit limit offset
  | andThen a b | orElse a b | alternative a b => a.Placeless ∧ b.Placeless
  | recover a | sequence a | repeated _ a | rule _ a => a.Placeless

variable [DecidableEq R]

theorem holds_precededBy {p : Probe R} (hp : ∀ index tag start, p ≠ .frameIs index tag start)
    (u : Text) (s : State R) : p.holds (s.precededBy u) = p.holds s := by
  cases p with
  | depthIs d => exact congrArg (· == d) (s.diagnostics.depth_laterBy u.byteLength)
  | nodesAre d => exact congrArg (· == d) (List.length_map _)
  | frameIs index tag start => exact absurd rfl (hp index tag start)
  | aborted => exact (State.respected_precededBy u).isAborted s

/-- By induction on the expression; a reference is the body of a rule, which is carried over by
hypothesis. -/
theorem transports_denote {u : Text} {env : Fin n → Body R} {told : Fin n → Account R}
    (henv : ∀ i s, Body.Transports (State.precededBy u) (env i) (told i) s) {e : Expr R n}
    (he : e.Placeless) (s : State R) :
    Body.Transports (State.precededBy u) (denote env e) (recount env told e) s := by
  have hf := State.respected_precededBy (R := R) u
  have hbad (s : State R) (source : Text) (cause : Notation.Error) :
      (s.precededBy u).abort (.badNotation source cause) =
        (s.abort (.badNotation source cause)).precededBy u :=
    s.abort_precededBy u (.badNotation source cause)
  induction e generalizing s with
  | succeed => exact Body.transports_succeed
  | fail => exact Body.transports_fail
  | test p => exact Body.transports_test (holds_precededBy he u s)
  | abort err =>
    refine Body.transports_abort ?_
    have habort := s.abort_precededBy u err
    rwa [Error.laterBy_eq_self he] at habort
  | pattern p => exact Body.transports_pattern hf p
  | written notated => exact Body.transports_written hf (hbad s notated)
  | andThen a b iha ihb => exact Body.transports_andThen (iha he.1 s) fun t _ => ihb he.2 t
  | orElse a b iha ihb => exact Body.transports_orElse (iha he.1 s) fun t _ => ihb he.2 t
  | recover a ih => exact Body.transports_recover (ih he s)
  | sequence a ih => exact Body.transports_sequence hf (ih he s)
  | alternative a b iha ihb =>
    exact Body.transports_alternative hf (fun _ => iha he.1 s) fun t _ _ => ihb he.2 t
  | repeated bounds a ih =>
    exact Body.transports_repeated hf (hbad s bounds.render)
      (Body.transportsLoop_of_forall hf (ih he) bounds _ 0 s)
  | rule tag a ih =>
    refine Body.transports_rule hf (fun _ => ?_) (fun _ _ => ?_) fun _ _ => ih he (s.enter tag)
    · rw [State.precededBy, Diagnostics.depth_laterBy]
    · exact s.abort_precededBy u (.recursionLimit s.maxDepth s.offset)
  | ref i => exact henv i s

variable {rules : Rules R n}

theorem transports_precededBy (hrules : ∀ i, (rules i).Placeless) {e : Expr R n} (he : e.Placeless)
    (u : Text) (k : Nat) (s : State R) :
    Body.Transports (State.precededBy u) (eval rules k e) (account rules k e) s := by
  have hunfold (k : Nat) (i : Fin n) (s : State R) :
      Body.Transports (State.precededBy u) (unfold rules k i) (told rules k i) s := by
    induction k generalizing i s with
    | zero => exact Body.transports_never
    | succ k ih => exact transports_denote ih (hrules i) s
  exact transports_denote (hunfold k) he s

/-- As deep as references nest after a text, they nest without it. -/
theorem body_precededBy (hrules : ∀ i, (rules i).Placeless) {e : Expr R n} (he : e.Placeless)
    (u : Text) (s : State R) :
    body rules e (s.precededBy u) = (body rules e s).map (Outcome.map (State.precededBy u)) :=
  (transports_precededBy hrules he u (nesting rules e s) s).outcome

theorem trail_precededBy (hrules : ∀ i, (rules i).Placeless) {es : List (Expr R n)}
    (hes : ∀ e ∈ es, e.Placeless) (u : Text) (s : State R) :
    trail rules es (s.precededBy u) =
      (trail rules es s).map (List.map (Outcome.map (State.precededBy u))) := by
  induction es generalizing s with
  | nil => rfl
  | cons e es ih =>
    obtain ⟨he, hes⟩ := List.forall_mem_cons.1 hes
    rw [trail, trail, body_precededBy hrules he]
    cases body rules e s with
    | none => rfl
    | some o =>
      simp only [Option.map_some, Option.bind_eq_bind, Option.bind_some, Outcome.state_map, ih hes]
      cases trail rules es o.state <;> rfl

/-- **Matching is translation invariant.**  A parse that starts after `u` in `u ++ t` has, step
after step and moment after moment, the outcomes that one has which starts at the beginning of
`t`, with `u` before the input of every state: bodies match alike, and all places are later by
the bytes of `u`.  The nodes that are found have the same texts and shapes, so they are equal. -/
theorem translation_invariant (rules : Rules R n) (hrules : ∀ i, (rules i).Placeless) (u t : Text)
    (config : Config) :
    ∃ s₀ : State R, State.startingAt (u ++ t) u.byteLength config = .ok s₀ ∧
      (∀ es : List (Expr R n), (∀ e ∈ es, e.Placeless) →
        trail rules es s₀ =
          (trail rules es (.start t config)).map (List.map (Outcome.map (State.precededBy u)))) ∧
      (∀ e : Expr R n, e.Placeless →
        moments rules e s₀ =
          (moments rules e (.start t config)).map (Moment.map (State.precededBy u))) ∧
      ∀ s : State R,
        (s.precededBy u).offset = u.byteLength + s.offset ∧ (s.precededBy u).rest = s.rest ∧
          (s.precededBy u).diagnostics.stack =
            s.diagnostics.stack.map (Frame.laterBy u.byteLength) ∧
          Node.preorderAll (s.precededBy u).nodes =
            (Node.preorderAll s.nodes).map (Node.precededBy u) ∧
          (∀ m ∈ Node.preorderAll s.nodes, (m.precededBy u).text = m.text) ∧
          Node.sameAll s.nodes (s.precededBy u).nodes = true := by
  refine ⟨_, State.startingAt_append u t config, fun es hes => ?_, fun e he => ?_, fun s => ?_⟩
  · exact trail_precededBy hrules hes u _
  · exact (transports_precededBy hrules he u _ _).account
  · have hnodes : (s.precededBy u).nodes = Node.allPrecededBy u s.nodes := by
      rw [State.nodes_precededBy, Node.allPrecededBy_eq_map]
    refine ⟨rfl, rfl, List.map_reverse.symm, ?_, fun m _ => m.text_precededBy u, ?_⟩
    · rw [hnodes, Node.preorderAll_allPrecededBy]
    · rw [hnodes]
      exact Node.sameAll_allPrecededBy u s.nodes

/-- A rule that matches and then one that enters itself until it is refused, with a character of
two bytes before the text: the hypotheses of `translation_invariant` are satisfiable where there
are nodes and an error at a place. -/
theorem translation_invariant_refused :
    let rules : Rules Unit 1 := fun _ => .rule () (.andThen (.pattern (.character 'a')) (.ref 0))
    let es : List (Expr Unit 1) := [.rule () (.pattern (.character 'a')), .ref 0]
    let config : Config := ⟨true, 2⟩
    (∀ i, (rules i).Placeless) ∧ (∀ e ∈ es, e.Placeless) ∧
      ∃ s₀ outcomes, State.startingAt ['é', 'a', 'a', 'a'] 2 config = .ok s₀ ∧
        trail rules es (.start ['a', 'a', 'a'] config) = some outcomes ∧
        outcomes.map (fun o => (o.state.nodes.map fun m => (m.start, m.stop))) =
          [[(0, 1)], [(0, 1)]] ∧
        outcomes.map (fun o => o.state.fatal) = [none, some (.recursionLimit 2 3)] ∧
        trail rules es s₀ = some (outcomes.map (Outcome.map (State.precededBy ['é']))) := by
  intro rules es config
  have hrules : ∀ i, (rules i).Placeless := fun _ => ⟨trivial, trivial⟩
  have hes : ∀ e ∈ es, e.Placeless :=
    List.forall_mem_cons.2 ⟨trivial, List.forall_mem_singleton.2 trivial⟩
  obtain ⟨outcomes, ho, hnodes, hfatal⟩ : ∃ outcomes,
      trail rules es (.start ['a', 'a', 'a'] config) = some outcomes ∧
        outcomes.map (fun o => (o.state.nodes.map fun m => (m.start, m.stop))) =
          [[(0, 1)], [(0, 1)]] ∧
        outcomes.map (fun o => o.state.fatal) = [none, some (.recursionLimit 2 3)] :=
    ⟨_, rfl, rfl, rfl⟩
  obtain ⟨s₀, hs₀, hsteps, -⟩ := translation_invariant rules hrules ['é'] ['a', 'a', 'a'] config
  refine ⟨hrules, hes, s₀, outcomes, hs₀, ho, hnodes, hfatal, ?_⟩
  rw [hsteps es hes, ho, Option.map_some]

end Expr
end Descent
