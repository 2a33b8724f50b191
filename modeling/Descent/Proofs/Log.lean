/-
# What the log tells

The log lists the rules that were entered and left, and nothing is ever taken out of it: a
failure takes back the cursor and the nodes, and leaves a rule, but the events stay.  Two
things can be read off it at any moment:

| reading | what it is |
| --- | --- |
| `Event.leftOpen?` | the active rules, the outermost first |
| `Event.taken?` of each event | the rules that matched, with the stretches they took |

The first reading checks the log while it replays it: only the innermost rule is left, by the
name and at the place it was entered with, and a rule that did not match ends where it began.
The second one lists the nodes, children before their parents, and possibly others in between,
which a failure took away again (`Node.postorder`).

Both are shown of the events between two states (`Diagnostics.Logs`, `State.Finds`), which
come one after another when bodies do.  Around a body, a rule puts the two events of its own.
-/

import Descent.Proofs.Account
import Descent.Proofs.Placement

namespace Descent

variable {R : Type}

namespace Event

/-- The rule that matched, where it began and where it ended. -/
def taken? : Event R → Option (R × Nat × Nat)
  | enter _ _ => none
  | leave rule start stop matched => if matched then some (rule, start, stop) else none

variable [DecidableEq R]

/-- The active rules after an event, the innermost first.  None when the event leaves a rule that
is not the innermost one, or ends it before its start, or after it without a match. -/
def replayOne? (active : List (Frame R)) : Event R → Option (List (Frame R))
  | enter rule start => some (⟨rule, start⟩ :: active)
  | leave rule start stop matched =>
    match active with
    | frame :: outer =>
      if frame = ⟨rule, start⟩ ∧ start ≤ stop ∧ (matched = false → stop = start) then some outer
      else none
    | [] => none

/-- The active rules after some events, the innermost first. -/
def replay? (active : List (Frame R)) (events : List (Event R)) : Option (List (Frame R)) :=
  events.foldlM replayOne? active

/-- The rules that a log leaves open, the outermost first. -/
def leftOpen? (events : List (Event R)) : Option (List (Frame R)) :=
  (replay? [] events).map List.reverse

theorem replay?_append (active : List (Frame R)) (events events' : List (Event R)) :
    replay? active (events ++ events') = (replay? active events).bind (replay? · events') :=
  List.foldlM_append

theorem replay?_singleton (active : List (Frame R)) (event : Event R) :
    replay? active [event] = replayOne? active event := by
  rw [replay?, List.foldlM_cons]
  cases replayOne? active event <;> rfl

end Event

namespace Node

mutual

/-- A node and all below it, children first. -/
def postorder : Node R → List (Node R)
  | ⟨rule, span, children⟩ => postorderAll children ++ [⟨rule, span, children⟩]

/-- All nodes of several trees, one tree after another. -/
def postorderAll : List (Node R) → List (Node R)
  | [] => []
  | n :: ns => postorder n ++ postorderAll ns

end

/-- The rule, where it began and where it ended. -/
def place (n : Node R) : R × Nat × Nat := (n.rule, n.start, n.stop)

theorem postorder_eq (n : Node R) : n.postorder = postorderAll n.children ++ [n] := by
  cases n
  rw [postorder]

theorem postorderAll_append (a b : List (Node R)) :
    postorderAll (a ++ b) = postorderAll a ++ postorderAll b := by
  induction a with
  | nil => rfl
  | cons n a ih => rw [List.cons_append, postorderAll, postorderAll, ih, List.append_assoc]

/-- The places of all nodes of several trees, children before their parents. -/
def places (ns : List (Node R)) : List (R × Nat × Nat) := (postorderAll ns).map place

theorem places_append (a b : List (Node R)) : places (a ++ b) = places a ++ places b := by
  rw [places, postorderAll_append, List.map_append]
  rfl

/-- The place of a node comes after those of the nodes inside it. -/
theorem places_singleton (n : Node R) : places [n] = places n.children ++ [n.place] := by
  rw [places, postorderAll, postorderAll, List.append_nil, postorder_eq, List.map_append]
  rfl

end Node

namespace Diagnostics

theorem events?_pop (d : Diagnostics R) (rule : R) {frame : Frame R} {outer : List (Frame R)}
    (h : d.active = frame :: outer) (stop : Nat) (matched : Bool) :
    (d.pop rule stop matched).events? =
      d.events?.map (· ++ [.leave rule frame.start stop matched]) := by
  unfold pop
  rw [h]
  unfold note events?
  cases d.log with
  | none => rfl
  | some log => simp only [Option.map_some, List.reverse_cons]

variable [DecidableEq R]

/-- Between the two records these events happened. -/
structure Logs (events : List (Event R)) (d d' : Diagnostics R) : Prop where
  log : d'.events? = d.events?.map (· ++ events)
  active : Event.replay? d.active events = some d'.active

variable {d d' d'' : Diagnostics R} {events events' : List (Event R)}

theorem Logs.of_eq (hlog : d'.events? = d.events?) (hactive : d'.active = d.active) :
    Logs [] d d' where
  log := by
    rw [hlog]
    simp only [List.append_nil, Option.map_id']
  active := by
    rw [hactive]
    rfl

theorem Logs.append (h : Logs events d d') (h' : Logs events' d' d'') :
    Logs (events ++ events') d d'' where
  log := by
    rw [h'.log, h.log, Option.map_map]
    simp only [Function.comp_def, List.append_assoc]
  active := by
    rw [Event.replay?_append, h.active]
    exact h'.active

theorem logs_recordFailure (d : Diagnostics R) (offset : Nat) :
    Logs [] d (d.recordFailure offset) :=
  .of_eq (d.events?_recordFailure offset) (d.extends_recordFailure offset).active

theorem logs_push (d : Diagnostics R) (rule : R) (start : Nat) :
    Logs [.enter rule start] d (d.push rule start) :=
  ⟨d.events?_push rule start, rfl⟩

/-- Leaving the innermost rule, which the log allows when it ends where it may. -/
theorem logs_pop {rule : R} {start stop : Nat} {outer : List (Frame R)} {matched : Bool}
    (h : d.active = ⟨rule, start⟩ :: outer) (hle : start ≤ stop)
    (hfailed : matched = false → stop = start) :
    Logs [.leave rule start stop matched] d (d.pop rule stop matched) where
  log := d.events?_pop rule h stop matched
  active := by
    have htail : (d.pop rule stop matched).active = outer := by
      show d.active.tail = outer
      rw [h, List.tail_cons]
    rw [Event.replay?_singleton, h, htail]
    exact if_pos ⟨rfl, hle, hfailed⟩

/-- Around what happens inside it, a rule puts the two events of its own. -/
theorem Logs.around {rule : R} {start stop : Nat} {matched : Bool}
    (h : Logs events (d.push rule start) d') (hext : (d.push rule start).Extends d')
    (hle : start ≤ stop) (hfailed : matched = false → stop = start) :
    Logs (.enter rule start :: events ++ [.leave rule start stop matched]) d
      (d'.pop rule stop matched) :=
  ((d.logs_push rule start).append h).append (logs_pop hext.active hle hfailed)

end Diagnostics

namespace State

variable [DecidableEq R] {s t u : State R} {events events' : List (Event R)}

/-- Between the two states these events happened, and the nodes that were found are among them,
children before their parents. -/
structure Finds (events : List (Event R)) (s t : State R) : Prop where
  logs : s.diagnostics.Logs events t.diagnostics
  nodes : ∃ nodes, t.nodes = s.nodes ++ nodes ∧
    (Node.places nodes).Sublist (events.filterMap Event.taken?)

theorem finds_nothing (hlogs : s.diagnostics.Logs events t.diagnostics)
    (hfound : t.found = s.found) : Finds events s t := by
  refine ⟨hlogs, [], ?_, List.nil_sublist _⟩
  rw [List.append_nil, nodes, nodes, hfound]

theorem Finds.append (h : Finds events s t) (h' : Finds events' t u) :
    Finds (events ++ events') s u := by
  obtain ⟨new, hnew, hsub⟩ := h.nodes
  obtain ⟨more, hmore, hsub'⟩ := h'.nodes
  refine ⟨h.logs.append h'.logs, new ++ more, ?_, ?_⟩
  · rw [hmore, hnew, List.append_assoc]
  · rw [Node.places_append, List.filterMap_append]
    exact hsub.append hsub'

/-- The node of a rule that matched is the event of leaving it, after those of the nodes inside. -/
theorem Finds.leaveMatched {tag : R} (h : Finds events (s.enter tag) t)
    (hext : (s.enter tag).Extends t) :
    Finds (.enter tag s.offset :: events ++ [.leave tag s.offset t.offset true]) s
      (t.leaveMatched tag s.cursor s.found) := by
  obtain ⟨inside, hinside, hsub⟩ := h.nodes
  have hnodes : t.nodes = inside := hinside
  let node : Node R := ⟨tag, ⟨t.cursor.input, s.offset, t.offset⟩, t.nodes⟩
  have hmatched : true = false → t.offset = s.offset := fun h => nomatch h
  refine ⟨h.logs.around hext.diagnostics hext.offset_le hmatched, [node], List.reverse_cons, ?_⟩
  have hplaces : Node.places [node] = Node.places inside ++ [(tag, s.offset, t.offset)] := by
    rw [Node.places_singleton, ← hnodes]
    rfl
  have htaken : (Event.enter tag s.offset :: events ++
        [Event.leave tag s.offset t.offset true]).filterMap Event.taken? =
      events.filterMap Event.taken? ++ [(tag, s.offset, t.offset)] := by
    rw [List.filterMap_append]
    rfl
  rw [hplaces, htaken]
  exact hsub.append_right _

/-- A rule that failed leaves its two events, those inside, and no node. -/
theorem Finds.leaveFailed {tag : R} (h : Finds events (s.enter tag) t)
    (hext : (s.enter tag).Extends t) :
    Finds (.enter tag s.offset :: events ++ [.leave tag s.offset s.offset false]) s
      (t.leaveFailed tag s.cursor s.found) :=
  finds_nothing (h.logs.around hext.diagnostics (Nat.le_refl _) fun _ => rfl) rfl

end State

/-- At each of these moments the log goes on from the record. -/
def Moment.Follow [DecidableEq R] (d : Diagnostics R) (ms : List (Moment R)) : Prop :=
  ∀ m ∈ ms, ∃ events, d.Logs events m.state.diagnostics

/-- What follows a later record follows an earlier one. -/
theorem Moment.Follow.after [DecidableEq R] {d d' : Diagnostics R} {events : List (Event R)}
    {ms : List (Moment R)} (hms : Follow d' ms) (h : d.Logs events d') : Follow d ms := by
  intro m hm
  obtain ⟨later, hlater⟩ := hms m hm
  exact ⟨events ++ later, h.append hlater⟩

/-- **Every evaluation logs what it does**: which rules it enters and leaves up to each moment, and
in the end the nodes that it has found. -/
theorem composing_finds [DecidableEq R] : Composing fun (s : State R) ms t =>
    (∃ events, s.Finds events t) ∧ Moment.Follow s.diagnostics ms where
  nothing := fun s => ⟨⟨[], State.finds_nothing (.of_eq rfl rfl) rfl⟩, fun m hm => nomatch hm⟩
  followed := by
    rintro s t u ms ms' - - ⟨⟨events, ht⟩, hms⟩ ⟨⟨events', hu⟩, hms'⟩
    exact ⟨⟨events ++ events', ht.append hu⟩,
      List.forall_mem_append.2 ⟨hms, hms'.after ht.logs⟩⟩
  took := fun _ => ⟨⟨[], State.finds_nothing (.of_eq rfl rfl) rfl⟩, fun m hm => nomatch hm⟩
  missed := fun {s} _ =>
    ⟨⟨[], State.finds_nothing (s.diagnostics.logs_recordFailure s.offset) rfl⟩,
      List.forall_mem_singleton.2 ⟨[], .of_eq rfl rfl⟩⟩
  raised := fun _ _ => ⟨⟨[], State.finds_nothing (.of_eq rfl rfl) rfl⟩,
    List.forall_mem_singleton.2 ⟨[], .of_eq rfl rfl⟩⟩
  refused := fun _ _ => ⟨⟨[], State.finds_nothing (.of_eq rfl rfl) rfl⟩,
    List.forall_mem_singleton.2 ⟨[], .of_eq rfl rfl⟩⟩
  rolledBack := by
    -- the nodes are taken back, and the events stay
    rintro s t ms hext ⟨⟨events, ht⟩, hms⟩
    refine ⟨⟨events, ?_⟩, hms⟩
    rw [hext.rollback_eq]
    exact State.finds_nothing ht.logs rfl
  leftMatched := by
    rintro s t ms tag - - hext ⟨⟨events, ht⟩, hms⟩ -
    have henter := s.diagnostics.logs_push tag s.offset
    exact ⟨⟨_, ht.leaveMatched hext⟩, List.forall_mem_cons.2 ⟨⟨_, henter⟩, hms.after henter⟩⟩
  leftFailed := by
    rintro s t ms tag - - hext ⟨⟨events, ht⟩, hms⟩
    have henter := s.diagnostics.logs_push tag s.offset
    exact ⟨⟨_, ht.leaveFailed hext⟩, List.forall_mem_cons.2 ⟨⟨_, henter⟩, hms.after henter⟩⟩

namespace State

variable [DecidableEq R] {s t : State R} {tracing : Bool}

/-- What happened since the start of the parse, with a log or without one, gives the active rules
and has the nodes in it. -/
def Recorded (tracing : Bool) (s : State R) : Prop :=
  ∃ events, (Diagnostics.new tracing).Logs events s.diagnostics ∧
    (Node.places s.nodes).Sublist (events.filterMap Event.taken?)

theorem recorded_ofCursor (c : Cursor) (config : Config) :
    (ofCursor c config : State R).Recorded config.trace :=
  ⟨[], Diagnostics.Logs.of_eq rfl rfl, List.nil_sublist _⟩

theorem Recorded.enter (h : s.Recorded tracing) (tag : R) : (s.enter tag).Recorded tracing := by
  obtain ⟨events, hlogs, -⟩ := h
  exact ⟨_, hlogs.append (s.diagnostics.logs_push tag s.offset), List.nil_sublist _⟩

theorem Recorded.eval {n k : Nat} {rules : Rules R n} {e : Expr R n} {o : Outcome R}
    (h : s.Recorded tracing) (ho : Expr.eval rules k e s = some o) : o.state.Recorded tracing := by
  obtain ⟨before, hlogs, hsub⟩ := h
  obtain ⟨⟨events, hfinds⟩, -⟩ := composing_finds.eval rules ho
  obtain ⟨new, hnew, hsub'⟩ := hfinds.nodes
  refine ⟨before ++ events, hlogs.append hfinds.logs, ?_⟩
  rw [hnew, Node.places_append, List.filterMap_append]
  exact hsub.append hsub'

end State

namespace Diagnostics

variable [DecidableEq R] {d : Diagnostics R} {events log : List (Event R)} {tracing : Bool}

/-- A log that is kept is what happened since the start. -/
theorem Logs.eq_log (h : (new tracing).Logs events d) (hlog : d.events? = some log) :
    events = log := by
  have hmap := h.log
  rw [hlog] at hmap
  cases tracing with
  | false => cases hmap
  | true => exact (Option.some.inj hmap).symm

/-- What happened since the start leaves the active rules open. -/
theorem Logs.leftOpen?_eq (h : (new tracing).Logs events d) :
    Event.leftOpen? events = some d.stack := by
  have hactive : Event.replay? [] events = some d.active := h.active
  rw [Event.leftOpen?, hactive]
  rfl

end Diagnostics

section

variable [DecidableEq R]

theorem Reached.recorded {input : Text} {origin : Nat} {s : State R} (h : Reached input origin s) :
    ∃ tracing, s.Recorded tracing := by
  induction h with
  | start config => exact ⟨_, State.recorded_ofCursor _ config⟩
  | @startingAt origin config s h =>
    obtain ⟨c, -, rfl⟩ := State.startingAt_eq_ok h
    exact ⟨_, State.recorded_ofCursor c config⟩
  | enter tag _ _ _ ih =>
    obtain ⟨tracing, h⟩ := ih
    exact ⟨tracing, h.enter tag⟩
  | apply rules e _ ho ih =>
    obtain ⟨tracing, h⟩ := ih
    exact ⟨tracing, h.eval ho⟩

/-- **The log is balanced and accounts for every node.**  In every state of a parse that keeps a
log, inside a rule or not, the log can be replayed, and leaves open the rules that are active.
The same holds at every moment of expressions that are applied one after another.  Between these
no rule is active, and the nodes found so far, children before their parents, are among the rules
that the log says have matched, in this order and with these stretches. -/
theorem log_accounts_for_nodes {n : Nat} (rules : Rules R n) {c : Cursor} {config : Config}
    (htrace : config.trace = true) {es : List (Expr R n)} {outcomes : List (Outcome R)}
    (h : Expr.trail rules es (.ofCursor c config) = some outcomes) :
    (∀ (input : Text) (origin : Nat) (s : State R) (log : List (Event R)),
        Reached input origin s → s.diagnostics.events? = some log →
          Event.leftOpen? log = some s.diagnostics.stack ∧
            (Node.places s.nodes).Sublist (log.filterMap Event.taken?)) ∧
      (∀ m ∈ Expr.history rules es (.ofCursor c config), ∃ log,
        m.state.diagnostics.events? = some log ∧
          Event.leftOpen? log = some m.state.diagnostics.stack) ∧
      ∀ o ∈ outcomes, ∃ log, o.state.diagnostics.events? = some log ∧
        o.state.diagnostics.stack = [] ∧ Event.leftOpen? log = some [] ∧
          (Node.places o.state.nodes).Sublist (log.filterMap Event.taken?) := by
  refine ⟨fun input origin s log hs hlog => ?_, fun m hm => ?_, fun o ho => ?_⟩
  · obtain ⟨tracing, events, hlogs, hsub⟩ := hs.recorded
    obtain rfl := hlogs.eq_log hlog
    exact ⟨hlogs.leftOpen?_eq, hsub⟩
  · obtain ⟨-, hmoments⟩ := composing_finds.trail h
    obtain ⟨events, hlogs⟩ := hmoments m hm
    have hlogs : (Diagnostics.new true).Logs events m.state.diagnostics := htrace ▸ hlogs
    exact ⟨events, hlogs.log, hlogs.leftOpen?_eq⟩
  · have hkept := Expr.trail_keeps (P := fun s => s.Recorded true ∧ s.diagnostics.stack = [])
      (fun hs ho => ⟨hs.1.eval ho, (Expr.eval_extends rules _ _ ho).stack_eq.trans hs.2⟩) h
      ⟨htrace ▸ State.recorded_ofCursor c config, rfl⟩
    obtain ⟨⟨events, hlogs, hsub⟩, hstack⟩ := hkept o ho
    exact ⟨events, hlogs.log, hstack, hstack ▸ hlogs.leftOpen?_eq, hsub⟩

end

/-- A rule that matches with another one inside it, a rule that fails after the one inside it has
matched, and a rule that gives the parse up: the hypotheses of `log_accounts_for_nodes` are
satisfiable where a failure has taken a node away, and inside a rule. -/
theorem log_accounts_for_nodes_recovered :
    let rules : Rules Bool 0 := Fin.elim0
    let inner (c : Char) : Expr Bool 0 := .rule false (.pattern (.character c))
    let es : List (Expr Bool 0) :=
      [.rule true (.andThen (inner 'a') (.optional (inner 'x'))),
        .recover (.rule true (.andThen (inner 'b') .fail)),
        .rule true (.abort (.unknownRule ['m']))]
    let config : Config := ⟨true, 9⟩
    let s : State Bool := .start ['a', 'b'] config
    config.trace = true ∧
      (Reached ['a', 'b'] 0 (s.enter true) ∧
        (s.enter true).diagnostics.events? = some [.enter true 0] ∧
        Event.leftOpen? [.enter true 0] = some [(⟨true, 0⟩ : Frame Bool)]) ∧
      ∃ outcomes last log, Expr.trail rules es s = some outcomes ∧ last ∈ outcomes ∧
        last.state.isAborted = true ∧ last.state.diagnostics.events? = some log ∧
        log = [.enter true 0, .enter false 0, .leave false 0 1 true, .enter false 1,
          .leave false 1 1 false, .leave true 0 1 true, .enter true 1, .enter false 1,
          .leave false 1 2 true, .leave true 1 1 false, .enter true 1, .leave true 1 1 false] ∧
        Node.places last.state.nodes = [(false, 0, 1), (true, 0, 1)] ∧
        Event.leftOpen? log = some [] ∧
        (Node.places last.state.nodes).Sublist (log.filterMap Event.taken?) := by
  intro rules inner es config s
  have htrace : config.trace = true := rfl
  have hinside : Reached ['a', 'b'] 0 (s.enter true) := .enter true (.start config) rfl (by decide)
  obtain ⟨first, second, last, log, ho, hgiven, hlog, hevents, hplaces⟩ :
      ∃ first second last log, Expr.trail rules es s = some [first, second, last] ∧
        last.state.isAborted = true ∧ last.state.diagnostics.events? = some log ∧
        log = [.enter true 0, .enter false 0, .leave false 0 1 true, .enter false 1,
          .leave false 1 1 false, .leave true 0 1 true, .enter true 1, .enter false 1,
          .leave false 1 2 true, .leave true 1 1 false, .enter true 1, .leave true 1 1 false] ∧
        Node.places last.state.nodes = [(false, 0, 1), (true, 0, 1)] :=
    ⟨_, _, _, _, rfl, rfl, rfl, rfl, rfl⟩
  have hmem : last ∈ [first, second, last] := List.mem_of_getLast? rfl
  obtain ⟨hreached, -, houtcomes⟩ := log_accounts_for_nodes rules htrace ho
  have hentered : (s.enter true).diagnostics.events? = some [.enter true 0] := rfl
  obtain ⟨log', hlog', -, hopen, hsub⟩ := houtcomes last hmem
  obtain rfl : log' = log := Option.some.inj (hlog'.symm.trans hlog)
  exact ⟨htrace, ⟨hinside, hentered, (hreached _ _ _ _ hinside hentered).1⟩, _, last, log', ho,
    hmem, hgiven, hlog, hevents, hplaces, hopen, hsub⟩

end Descent
