/-
# Where nodes lie

At every moment of a parse the cursor is a place between two characters, and each
node spells the stretch of input that its span names, with its children inside it, in
order and disjoint.  The nodes that are still without a parent lie the same way
between the place where the innermost rule was entered and the cursor
(`reached_placed`).

A moment of a parse is a state that is `Reached`: a first one, what any expression
leaves of one that was reached, matched or failed, and the inside of a rule that is
entered.  So the states between two parts of a body are among them.

The invariant is `State.Placed`.  It speaks of the cursor, the nodes and the active
rules, and a failing operator either leaves these as its last part did or puts all
three back; a rule that matches closes its own stretch and adds it to the older one.
-/

import Descent.Proofs.Extension

namespace Descent

namespace Text

/-- A cut is possible after `i` bytes. -/
def IsBoundary (t : Text) (i : Nat) : Prop := ∃ before after, t = before ++ after ∧ before.byteLength = i

theorem IsBoundary.le {t : Text} {i : Nat} (h : t.IsBoundary i) : i ≤ t.byteLength := by
  obtain ⟨before, after, rfl, rfl⟩ := h
  rw [byteLength_append]
  omega

/-- The two ends of a slice are boundaries in order. -/
theorem isBoundary_of_slice? {t b : Text} {start stop : Nat} (h : t.slice? start stop = some b) :
    start ≤ stop ∧ t.IsBoundary start ∧ t.IsBoundary stop := by
  obtain ⟨before, after, rfl, hstart, hstop⟩ := slice?_eq_some_iff.1 h
  refine ⟨by omega, ⟨before, b ++ after, rfl, hstart⟩, ⟨before ++ b, after, ?_, ?_⟩⟩
  · rw [List.append_assoc]
  · rw [byteLength_append]
    omega

end Text

variable {R : Type}

namespace Node

/-- The nodes lie between two offsets, one after another and none in the other. -/
def InOrder (lo hi : Nat) : List (Node R) → Prop
  | [] => lo ≤ hi
  | n :: ns => lo ≤ n.start ∧ n.start ≤ n.stop ∧ InOrder n.stop hi ns

theorem InOrder.mono {lo hi hi' : Nat} {ns : List (Node R)} (h : InOrder lo hi ns)
    (hhi : hi ≤ hi') : InOrder lo hi' ns := by
  induction ns generalizing lo with
  | nil => exact Nat.le_trans h hhi
  | cons n ns ih => exact ⟨h.1, h.2.1, ih h.2.2⟩

/-- One more node after all the others. -/
theorem InOrder.append_singleton {lo mid hi : Nat} {ns : List (Node R)} {n : Node R}
    (h : InOrder lo mid ns) (hstart : mid ≤ n.start) (hle : n.start ≤ n.stop)
    (hstop : n.stop ≤ hi) : InOrder lo hi (ns ++ [n]) := by
  induction ns generalizing lo with
  | nil => exact ⟨Nat.le_trans h hstart, hle, hstop⟩
  | cons m ns ih => exact ⟨h.1, h.2.1, ih h.2.2⟩

/-- The node spells its stretch of the input, and its children lie inside it in order. -/
structure WellPlaced (input : Text) (n : Node R) : Prop where
  span_input : n.span.input = input
  text : input.slice? n.start n.stop = some n.text
  children : InOrder n.start n.stop n.children

end Node

namespace State

/-- Where the innermost active rule was entered; `origin` when no rule is active. -/
def base (origin : Nat) (s : State R) : Nat :=
  match s.diagnostics.active with
  | frame :: _ => frame.start
  | [] => origin

/-- The cursor is a place of the input, all nodes are well placed, and those without a parent lie
in order between the start of the innermost rule and the cursor. -/
structure Placed (origin : Nat) (s : State R) : Prop where
  cursor : s.cursor.Sound
  nodes : ∀ n ∈ Node.preorderAll s.nodes, n.WellPlaced s.cursor.input
  order : Node.InOrder (s.base origin) s.offset s.nodes

variable {origin : Nat} {s t : State R}

theorem placed_ofCursor {c : Cursor} (hc : c.Sound) (config : Config) :
    (ofCursor c config : State R).Placed c.offset where
  cursor := hc
  nodes := fun n hn => by
    have hnone : n ∈ Node.preorderAll ([] : List (Node R)) := hn
    rw [Node.preorderAll] at hnone
    cases hnone
  order := Nat.le_refl c.offset

theorem startingAt_eq_ok {input : Text} {offset : Nat} {config : Config}
    (h : startingAt input offset config = .ok s) :
    ∃ c, Cursor.startingAt input offset = .ok c ∧ s = ofCursor c config := by
  unfold startingAt at h
  cases hc : Cursor.startingAt input offset with
  | ok c =>
    rw [hc] at h
    exact ⟨c, rfl, (Except.ok.inj h).symm⟩
  | error e =>
    rw [hc] at h
    cases h

theorem base_congr (h : t.diagnostics.active = s.diagnostics.active) :
    t.base origin = s.base origin := by
  unfold base
  rw [h]

/-- Placement is about the cursor, the nodes and the active rules alone. -/
theorem Placed.congr (h : s.Placed origin) (hcursor : t.cursor = s.cursor)
    (hfound : t.found = s.found) (hactive : t.diagnostics.active = s.diagnostics.active) :
    t.Placed origin := by
  obtain ⟨cursor, found, maxDepth, diagnostics, fatal⟩ := t
  obtain rfl : cursor = s.cursor := hcursor
  obtain rfl : found = s.found := hfound
  refine ⟨h.cursor, h.nodes, ?_⟩
  rw [base_congr hactive]
  exact h.order

theorem Placed.takes (h : s.Placed origin) {taken : Text} {cursor : Cursor}
    (hc : s.cursor.Takes taken cursor) : State.Placed origin { s with cursor } where
  cursor := hc.sound h.cursor
  nodes := fun n hn => by
    have hinput : cursor.input = s.cursor.input := hc.input
    show n.WellPlaced cursor.input
    rw [hinput]
    exact h.nodes n hn
  order := h.order.mono hc.offset_le

theorem Placed.rollback (h : s.Placed origin) (hext : s.Extends t) :
    (t.rollback s.cursor s.found.length).Placed origin := by
  rw [hext.rollback_eq]
  exact h.congr rfl rfl hext.diagnostics.active

/-- Inside a rule that is entered there are no nodes yet, and they are to lie after the cursor. -/
theorem Placed.enter (h : s.Placed origin) (tag : R) : (s.enter tag).Placed origin where
  cursor := h.cursor
  nodes := (placed_ofCursor h.cursor (R := R) .standard).nodes
  order := Nat.le_refl s.offset

theorem Placed.leaveFailed (h : s.Placed origin) {tag : R} (hext : (s.enter tag).Extends t) :
    (t.leaveFailed tag s.cursor s.found).Placed origin :=
  h.congr rfl rfl hext.leaveFailed.diagnostics.active

/-- **A rule that matches closes its stretch.**  The nodes that its body found lie between the
place where the rule was entered and the cursor, and so do the ends of the new node. -/
theorem Placed.leaveMatched (h : s.Placed origin) {tag : R} (hext : (s.enter tag).Extends t)
    (ht : t.Placed origin) : (t.leaveMatched tag s.cursor s.found).Placed origin := by
  obtain ⟨taken, htaken⟩ := hext.cursor
  have htaken : s.cursor.Takes taken t.cursor := htaken
  have hinput : t.cursor.input = s.cursor.input := htaken.input
  have hbase : t.base origin = s.offset := by
    unfold base
    rw [hext.diagnostics.active]
    rfl
  have hinside : Node.InOrder s.offset t.offset t.nodes := hbase ▸ ht.order
  let node : Node R := ⟨tag, ⟨t.cursor.input, s.offset, t.offset⟩, t.nodes⟩
  have hnode : node.WellPlaced t.cursor.input := by
    refine ⟨rfl, ?_, hinside⟩
    have htext : node.text = taken := htaken.text h.cursor
    rw [htext]
    exact htaken.slice? h.cursor
  have hnodes : (t.leaveMatched tag s.cursor s.found).nodes = s.nodes ++ [node] :=
    List.reverse_cons
  refine ⟨ht.cursor, fun n hn => ?_, ?_⟩
  · show n.WellPlaced t.cursor.input
    rw [hnodes, Node.preorderAll_append, List.mem_append] at hn
    rcases hn with hn | hn
    · rw [hinput]
      exact h.nodes n hn
    · rw [Node.preorderAll, Node.preorderAll, List.append_nil, Node.preorder_eq,
        List.mem_cons] at hn
      rcases hn with rfl | hn
      · exact hnode
      · exact ht.nodes n hn
  · rw [hnodes, base_congr hext.leaveMatched.diagnostics.active]
    exact h.order.append_singleton (Nat.le_refl _) hext.offset_le (Nat.le_refl _)

end State

namespace Body

open State

/-- Whether the body matches or fails, it keeps nodes and cursor placed. -/
def Placing (a : Body R) : Prop :=
  ∀ ⦃origin s o⦄, s.Placed origin → a s = some o → o.state.Placed origin

variable {a b : Body R}

theorem placing_pattern (p : Pattern) : Placing (pattern p : Body R) := by
  intro origin s o hs h
  rcases pattern_eq_some h with ⟨-, rfl⟩ | ⟨-, cursor, hc, rfl⟩ | ⟨-, -, rfl⟩
  · exact hs
  · obtain ⟨taken, -, htaken⟩ := Pattern.match?_eq_some_iff.1 hc
    exact hs.takes htaken
  · exact hs.congr rfl rfl s.extends_recordFailure.diagnostics.active

theorem placing_orElse (ha : Placing a) (hb : Placing b) : Placing (orElse a b) := by
  intro origin s o hs h
  rcases orElse_eq_some h with ⟨t, hat, hbt⟩ | ⟨t, hat, rfl⟩
  · exact hb (ha hs hat) hbt
  · exact ha hs hat

theorem placing_sequence (hext : Extending a) (ha : Placing a) : Placing (sequence a) := by
  intro origin s o hs h
  rcases sequence_eq_some h with ⟨t, hat, rfl⟩ | ⟨t, hat, rfl⟩
  · exact ha hs hat
  · exact hs.rollback (hext hat)

theorem placing_repeated (bounds : Notation.Repeat) (hext : Extending a) (ha : Placing a) :
    Placing (repeated bounds a) := by
  intro origin s o hs h
  rcases repeated_eq_some h with ⟨cause, -, rfl⟩ | ⟨-, count, t, ht, ⟨-, -, rfl⟩ | ⟨-, rfl⟩⟩
  · exact hs.congr rfl rfl rfl
  · exact ht.keeps (P := Placed origin) (fun hu h => placing_sequence hext ha hu h) hs
  · exact hs.rollback (ht.extends hext)

theorem placing_rule (tag : R) (hext : Extending a) (ha : Placing a) : Placing (rule tag a) := by
  intro origin s o hs h
  rcases rule_eq_some h with ⟨-, rfl⟩ | ⟨-, -, rfl⟩ | ⟨-, -, p, hp, ⟨-, -, rfl⟩ | ⟨-, rfl⟩⟩
  · exact hs
  · exact hs.congr rfl rfl rfl
  · exact hs.leaveMatched (hext hp) (ha (hs.enter tag) hp)
  · exact hs.leaveFailed (hext hp)

theorem closed_placing : Closed fun a : Body R => Extending a ∧ Placing a where
  never := ⟨closed_extending.never, fun _ _ _ _ h => nomatch h⟩
  succeed := ⟨closed_extending.succeed, fun _ _ _ hs h => Option.some.inj h ▸ hs⟩
  fail := ⟨closed_extending.fail, fun _ _ _ hs h => Option.some.inj h ▸ hs⟩
  test := fun p => ⟨closed_extending.test p, fun origin s o hs h => by
    obtain rfl := Option.some.inj h
    split <;> exact hs⟩
  abort := fun e => ⟨closed_extending.abort e, fun _ _ _ hs h =>
    Option.some.inj h ▸ hs.congr rfl rfl rfl⟩
  pattern := fun p => ⟨closed_extending.pattern p, placing_pattern p⟩
  andThen := fun ha hb => ⟨closed_extending.andThen ha.1 hb.1, fun origin s o hs h => by
    rcases andThen_eq_some h with ⟨t, hat, hbt⟩ | ⟨t, hat, rfl⟩
    · exact hb.2 (ha.2 hs hat) hbt
    · exact ha.2 hs hat⟩
  orElse := fun ha hb => ⟨closed_extending.orElse ha.1 hb.1, placing_orElse ha.2 hb.2⟩
  recover := fun ha => ⟨closed_extending.recover ha.1, fun origin s o hs h => by
    obtain ⟨p, hp, rfl⟩ := recover_eq_some h
    show p.state.Placed origin
    exact ha.2 hs hp⟩
  sequence := fun ha => ⟨closed_extending.sequence ha.1, placing_sequence ha.1 ha.2⟩
  alternative := fun ha hb => ⟨closed_extending.alternative ha.1 hb.1, fun origin s o hs h => by
    rcases alternative_eq_some h with ⟨-, rfl⟩ | ⟨-, h⟩
    · exact hs
    · exact placing_orElse (placing_sequence ha.1 ha.2) hb.2 hs h⟩
  repeated := fun bounds _ ha =>
    ⟨closed_extending.repeated bounds ha.1, placing_repeated bounds ha.1 ha.2⟩
  rule := fun tag _ ha => ⟨closed_extending.rule tag ha.1, placing_rule tag ha.1 ha.2⟩

end Body

variable [DecidableEq R]

/-- The states that a parse of an input goes through, from the place where it starts. -/
inductive Reached (input : Text) : (origin : Nat) → State R → Prop where
  | start (config : Config) : Reached input 0 (.start input config)
  | startingAt {origin : Nat} {config : Config} {s : State R} :
    State.startingAt input origin config = .ok s → Reached input origin s
  /-- The inside of a rule, before its body is applied. -/
  | enter {origin : Nat} {s : State R} (tag : R) : Reached input origin s →
    s.isAborted = false → s.diagnostics.depth < s.maxDepth → Reached input origin (s.enter tag)
  /-- What an expression leaves, whether it matches or fails. -/
  | apply {origin n k : Nat} {s : State R} {o : Outcome R} (rules : Rules R n) (e : Expr R n) :
    Reached input origin s → Expr.eval rules k e s = some o → Reached input origin o.state

theorem Reached.placed {input : Text} {origin : Nat} {s : State R} (h : Reached input origin s) :
    s.Placed origin ∧ s.cursor.input = input := by
  induction h with
  | start config => exact ⟨State.placed_ofCursor (Cursor.sound_start input) config, rfl⟩
  | @startingAt origin config s h =>
    obtain ⟨c, hc, rfl⟩ := State.startingAt_eq_ok h
    obtain ⟨hsound, hinput, rfl⟩ := Cursor.sound_of_startingAt hc
    exact ⟨State.placed_ofCursor hsound config, hinput⟩
  | enter tag _ _ _ ih => exact ⟨ih.1.enter tag, ih.2⟩
  | apply rules e _ ho ih =>
    obtain ⟨hext, hplacing⟩ := Body.closed_placing.eval rules _ e
    obtain ⟨taken, htaken⟩ := (hext ho).cursor
    exact ⟨hplacing ih.1 ho, htaken.input.trans ih.2⟩

/-- **Nodes and cursor are in their places at every moment.**  The cursor is a boundary of the
input, and what is left of the input is what follows it.  Every node at any depth has two
boundaries in order as its ends, spells the input between them, and has its children inside it,
in order and disjoint.  The nodes without a parent lie the same way after the start of the
innermost rule, or of the parse, and before the cursor. -/
theorem reached_placed {input : Text} {origin : Nat} {s : State R} (h : Reached input origin s) :
    (s.offset ≤ input.byteLength ∧ input.IsBoundary s.offset ∧
        input.drop? s.offset = some s.rest) ∧
      (∀ n ∈ Node.preorderAll s.nodes, n.span.input = input ∧
        n.start ≤ n.stop ∧ input.IsBoundary n.start ∧ input.IsBoundary n.stop ∧
        input.slice? n.start n.stop = some n.text ∧
        Node.InOrder n.start n.stop n.children) ∧
      Node.InOrder (s.base origin) s.offset s.nodes := by
  obtain ⟨hplaced, rfl⟩ := h.placed
  obtain ⟨before, hinput, hlen⟩ := Text.drop?_eq_some_iff.1 hplaced.cursor
  have hboundary : s.cursor.input.IsBoundary s.offset := ⟨before, s.rest, hinput, hlen⟩
  refine ⟨⟨hboundary.le, hboundary, hplaced.cursor⟩, fun n hn => ?_, hplaced.order⟩
  have hnode := hplaced.nodes n hn
  obtain ⟨hle, hstart, hstop⟩ := Text.isBoundary_of_slice? hnode.text
  exact ⟨hnode.span_input, hle, hstart, hstop, hnode.text, hnode.children⟩

/-- A rule that is entered after one byte, and in it a chain that fails after a node of two bytes
and an alternative that goes on from there: the hypothesis of `reached_placed` is satisfiable
where a failure has left progress behind. -/
theorem reached_placed_carried :
    let input : Text := ['x', 'é', 'b', 'c']
    ∃ s : State Unit, Reached input 1 s ∧
      s.nodes.map (fun n => (n.start, n.stop)) = [(1, 3), (3, 4)] ∧ s.base 1 = 1 ∧ s.offset = 4 ∧
      ((s.offset ≤ input.byteLength ∧ input.IsBoundary s.offset ∧
          input.drop? s.offset = some s.rest) ∧
        (∀ n ∈ Node.preorderAll s.nodes, n.span.input = input ∧
          n.start ≤ n.stop ∧ input.IsBoundary n.start ∧ input.IsBoundary n.stop ∧
          input.slice? n.start n.stop = some n.text ∧
          Node.InOrder n.start n.stop n.children) ∧
        Node.InOrder (s.base 1) s.offset s.nodes) := by
  intro input
  let one (c : Char) : Expr Unit 0 := .rule () (.pattern (.character c))
  obtain ⟨first, hfirst⟩ : ∃ s : State Unit, State.startingAt input 1 .standard = .ok s := ⟨_, rfl⟩
  have hinside : Reached input 1 (first.enter ()) := by
    obtain rfl := Except.ok.inj hfirst
    exact .enter () (.startingAt hfirst) rfl (by decide)
  obtain ⟨o, ho, hnodes, hbase, hoffset⟩ : ∃ o,
      Expr.eval Fin.elim0 0 (.orElse (.andThen (one 'é') .fail) (one 'b')) (first.enter ()) = some o ∧
        o.state.nodes.map (fun n => (n.start, n.stop)) = [(1, 3), (3, 4)] ∧
        o.state.base 1 = 1 ∧ o.state.offset = 4 := by
    obtain rfl := Except.ok.inj hfirst
    exact ⟨_, rfl, rfl, rfl, rfl⟩
  have hs : Reached input 1 o.state := hinside.apply _ _ ho
  exact ⟨o.state, hs, hnodes, hbase, hoffset, reached_placed hs⟩

end Descent
