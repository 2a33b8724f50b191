/-
# The limit on active rules

Each state carries a limit on how many rules may be active at once, and entering one more
gives the parse up.  Three things are shown of it.

It bounds what it is to bound.  No more rules are active at any moment, and no tree is
higher (`State.Bounded`): a node stands for a rule that was active, and its children for
rules that were active inside it.

It speaks only where it is reached.  A rule is refused just where as many are active as
the limit says, and the error names the limit and the place.

It has no other say.  Two runs with the limits `d < d'` go the same way moment by moment
until, if ever, the first one refuses a rule that the second one enters
(`Body.Lockstep`):

| the run with limit `d'` | the run with limit `d` |
| --- | --- |
| never has more than `d` rules active | is the same, but for the limit |
| has more than `d` rules active at some moment | is given up at the first such moment |

After a refusal the first run may still go on in a way of its own, as a grammar can
recover from it; but it stays given up.
-/

import Descent.Proofs.GivenUp
import Descent.Proofs.Placement
import Descent.Proofs.Transport

namespace Descent

variable {R : Type}

namespace Node

mutual

/-- The number of nodes on a longest way down. -/
def height : Node R → Nat
  | ⟨_, _, children⟩ => heightAll children + 1

/-- The greatest height of several trees. -/
def heightAll : List (Node R) → Nat
  | [] => 0
  | n :: ns => max (height n) (heightAll ns)

end

theorem height_eq (n : Node R) : n.height = heightAll n.children + 1 := by
  cases n
  rw [height]

theorem heightAll_le_iff {ns : List (Node R)} {h : Nat} :
    heightAll ns ≤ h ↔ ∀ n ∈ ns, n.height ≤ h := by
  induction ns with
  | nil => simp only [heightAll, Nat.zero_le, List.not_mem_nil, false_implies, implies_true]
  | cons n ns ih => rw [heightAll, Nat.max_le, ih, List.forall_mem_cons]

end Node

namespace State

/-- The same state with another limit on active rules. -/
def withMaxDepth (d : Nat) (s : State R) : State R := { s with maxDepth := d }

/-- With another limit a parse starts in the same state, but for the limit. -/
theorem withMaxDepth_ofCursor (d : Nat) (c : Cursor) (config : Config) :
    (ofCursor c config : State R).withMaxDepth d = ofCursor c (config.withMaxDepth d) := rfl

theorem respected_withMaxDepth (d : Nat) : Respected (withMaxDepth d : State R → State R) where
  isAborted := fun _ => rfl
  rest := fun _ => rfl
  offset_eq_iff := fun _ _ => Iff.rfl
  take := fun _ _ => rfl
  recordFailure := fun _ => rfl
  rollback := fun _ _ => rfl
  enter := fun _ _ => rfl
  leaveMatched := fun _ _ _ => rfl
  leaveFailed := fun _ _ _ => rfl

/-- The parse was given up for too many active rules. -/
def HitLimit (s : State R) : Prop := ∃ limit offset, s.fatal = some (.recursionLimit limit offset)

/-- No more rules are active than the limit says, and the nodes are low enough to have come from
rules that were active on top of these. -/
structure Bounded (s : State R) : Prop where
  depth : s.diagnostics.depth ≤ s.maxDepth
  height : ∀ n ∈ s.found, n.height + s.diagnostics.depth ≤ s.maxDepth

variable {s t : State R}

theorem Bounded.height_le (h : s.Bounded) : ∀ n ∈ s.nodes, n.height ≤ s.maxDepth := fun n hn =>
  Nat.le_trans (Nat.le_add_right _ _) (h.height n (List.mem_reverse.1 hn))

/-- The bounds are about the nodes, the number of active rules and the limit alone. -/
theorem Bounded.congr (h : s.Bounded) (hfound : t.found = s.found)
    (hdepth : t.diagnostics.depth = s.diagnostics.depth) (hmax : t.maxDepth = s.maxDepth) :
    t.Bounded where
  depth := by
    rw [hdepth, hmax]
    exact h.depth
  height := by
    rw [hfound, hdepth, hmax]
    exact h.height

theorem bounded_ofCursor (c : Cursor) (config : Config) :
    (ofCursor c config : State R).Bounded where
  depth := Nat.zero_le _
  height := fun _ hn => nomatch hn

theorem Bounded.rollback (h : s.Bounded) (hext : s.Extends t) :
    (t.rollback s.cursor s.found.length).Bounded := by
  rw [hext.rollback_eq]
  exact h.congr rfl hext.depth_eq hext.maxDepth

theorem bounded_enter (hroom : s.diagnostics.depth < s.maxDepth) (tag : R) :
    (s.enter tag).Bounded where
  depth := hroom
  height := fun _ hn => nomatch hn

theorem Bounded.leaveFailed (h : s.Bounded) {tag : R} (hext : (s.enter tag).Extends t) :
    (t.leaveFailed tag s.cursor s.found).Bounded :=
  h.congr rfl hext.leaveFailed.depth_eq hext.maxDepth

/-- The new node is one higher than those inside it, which were found with one more rule active. -/
theorem Bounded.leaveMatched (h : s.Bounded) {tag : R} (hext : (s.enter tag).Extends t)
    (ht : t.Bounded) : (t.leaveMatched tag s.cursor s.found).Bounded := by
  have hdepth : (t.leaveMatched tag s.cursor s.found).diagnostics.depth = s.diagnostics.depth :=
    hext.leaveMatched.depth_eq
  have hmax : (t.leaveMatched tag s.cursor s.found).maxDepth = s.maxDepth := hext.maxDepth
  have hinside : t.diagnostics.depth = s.diagnostics.depth + 1 := hext.depth_eq
  have hlimit : t.maxDepth = s.maxDepth := hext.maxDepth
  refine ⟨by rw [hdepth, hmax]; exact h.depth, fun n hn => ?_⟩
  rw [hdepth, hmax]
  rcases List.mem_cons.1 hn with rfl | hn
  · have hchildren : Node.heightAll t.nodes ≤ s.maxDepth - (s.diagnostics.depth + 1) := by
      refine Node.heightAll_le_iff.2 fun n hn => ?_
      have hn := ht.height n (List.mem_reverse.1 hn)
      omega
    have hroom := ht.depth
    rw [Node.height_eq]
    dsimp only
    omega
  · exact h.height n hn

end State

/-- The moment comes in a state that keeps within the limit `d`; and when a rule is refused, as
many are active. -/
structure Moment.Within (d : Nat) (m : Moment R) : Prop where
  maxDepth : m.state.maxDepth = d
  bounded : m.state.Bounded
  refused : ∀ s, m = .refused s → s.diagnostics.depth = d

/-- Within the limit at first, within the limit ever after. -/
theorem composing_bounded : Composing fun (s : State R) ms t =>
    s.Bounded → t.Bounded ∧ ∀ m ∈ ms, m.Within s.maxDepth where
  nothing := fun _ hs => ⟨hs, fun _ hm => nomatch hm⟩
  followed := by
    intro s t u ms ms' hst _ hfirst hlater hs
    obtain ⟨ht, hms⟩ := hfirst hs
    obtain ⟨hu, hms'⟩ := hlater ht
    refine ⟨hu, fun m hm => ?_⟩
    rcases List.mem_append.1 hm with hm | hm
    · exact hms m hm
    · exact hst.maxDepth ▸ hms' m hm
  took := fun _ hs => ⟨hs.congr rfl rfl rfl, fun _ hm => nomatch hm⟩
  missed := by
    intro s _ hs
    refine ⟨hs.congr rfl s.extends_recordFailure.depth_eq rfl, List.forall_mem_singleton.2 ?_⟩
    exact ⟨rfl, hs, fun _ h => nomatch h⟩
  raised := by
    intro e s hs
    refine ⟨hs.congr rfl rfl rfl, List.forall_mem_singleton.2 ?_⟩
    exact ⟨rfl, hs, fun _ h => nomatch h⟩
  refused := by
    intro s _ hdeep hs
    refine ⟨hs.congr rfl rfl rfl, List.forall_mem_singleton.2 ⟨rfl, hs, fun t ht => ?_⟩⟩
    obtain rfl := Moment.refused.inj ht
    exact Nat.le_antisymm hs.depth hdeep
  rolledBack := fun hext h hs => ⟨hs.rollback hext, (h hs).2⟩
  leftMatched := by
    intro s t ms tag _ hroom hext h _ hs
    have henter := State.bounded_enter hroom tag
    obtain ⟨ht, hms⟩ := h henter
    refine ⟨hs.leaveMatched hext ht, List.forall_mem_cons.2 ⟨?_, hms⟩⟩
    exact ⟨rfl, henter, fun _ h => nomatch h⟩
  leftFailed := by
    intro s t ms tag _ hroom hext h hs
    have henter := State.bounded_enter hroom tag
    obtain ⟨-, hms⟩ := h henter
    refine ⟨hs.leaveFailed hext, List.forall_mem_cons.2 ⟨?_, hms⟩⟩
    exact ⟨rfl, henter, fun _ h => nomatch h⟩

/-- Where a rule is refused, the parse is given up for it in the end. -/
theorem composing_refused : Composing fun (_ : State R) ms t =>
    ∀ u, .refused u ∈ ms → t.fatal = some (.recursionLimit u.maxDepth u.offset) where
  nothing := fun _ _ hu => nomatch hu
  followed := by
    intro s t v ms ms' _ htv hfirst hlater u hu
    rcases List.mem_append.1 hu with hu | hu
    · exact htv.fatal _ (hfirst u hu)
    · exact hlater u hu
  took := fun _ _ hu => nomatch hu
  missed := fun _ u hu => nomatch List.mem_singleton.1 hu
  raised := fun _ _ u hu => nomatch List.mem_singleton.1 hu
  refused := by
    intro s hfree _ u hu
    obtain rfl := Moment.refused.inj (List.mem_singleton.1 hu)
    rw [State.abort_of_free hfree]
  rolledBack := fun _ h => h
  leftMatched := fun _ _ _ _ h _ u hu =>
    h u ((List.mem_cons.1 hu).resolve_left fun h => nomatch h)
  leftFailed := fun _ _ _ _ h u hu =>
    h u ((List.mem_cons.1 hu).resolve_left fun h => nomatch h)

/-- The accounts of two runs part at the limit `d`: the first run refuses a rule, and the second
one has more rules active at some moment. -/
structure Moment.Part (d : Nat) (ms ms' : List (Moment R)) : Prop where
  refused : ∃ t, .refused t ∈ ms
  deeper : ∃ t, .entered t ∈ ms' ∧ d < t.diagnostics.depth

theorem Moment.Part.mono {d : Nat} {ms ms' more more' : List (Moment R)} (h : Part d ms ms')
    (hms : ms ⊆ more) (hms' : ms' ⊆ more') : Part d more more' := by
  obtain ⟨⟨t, ht⟩, u, hu, hdeep⟩ := h
  exact ⟨⟨t, hms ht⟩, u, hms' hu, hdeep⟩

namespace Body

open State (withMaxDepth respected_withMaxDepth)

/-- From a state with the limit `d`, and from the same one with the limit `d'`, the body goes the
same way, or else the accounts part at `d`. -/
def Lockstep (d d' : Nat) (a : Body R) (α : Account R) : Prop :=
  Extending a ∧ ∀ ⦃s⦄, s.maxDepth = d → s.diagnostics.depth ≤ d →
    Transports (withMaxDepth d') a α s ∨ Moment.Part d (α s) (α (s.withMaxDepth d'))

variable {d d' : Nat} {a b : Body R} {α β : Account R} {s t : State R}

theorem Lockstep.of_transports (hext : Extending a)
    (h : ∀ s, Transports (withMaxDepth d') a α s) : Lockstep d d' a α :=
  ⟨hext, fun s _ _ => .inl (h s)⟩

/-- What a body leaves is within the limit, if the state that it was given was. -/
theorem Lockstep.next (hb : Lockstep d d' b β) (hext : s.Extends t) (hmax : s.maxDepth = d)
    (hdepth : s.diagnostics.depth ≤ d) :
    Transports (withMaxDepth d') b β t ∨ Moment.Part d (β t) (β (t.withMaxDepth d')) :=
  hb.2 (hext.maxDepth.trans hmax) (hext.depth_eq ▸ hdepth)

theorem lockstep_andThen (ha : Lockstep d d' a α) (hb : Lockstep d d' b β) :
    Lockstep d d' (andThen a b) (Account.andThen a α β) := by
  refine ⟨extending_andThen ha.1 hb.1, fun s hmax hdepth =>
    or_iff_not_imp_right.2 fun htogether => ?_⟩
  have hfirst : Transports (withMaxDepth d') a α s := (ha.2 hmax hdepth).resolve_right fun hpart =>
    htogether (hpart.mono Account.subset_andThen_left Account.subset_andThen_left)
  refine transports_andThen hfirst fun t ht => ?_
  refine (hb.next (ha.1 ht) hmax hdepth).resolve_right fun hpart => htogether (hpart.mono ?_ ?_)
  · exact Account.subset_andThen_right ht
  · exact Account.subset_andThen_right (hfirst.matched ht)

theorem lockstep_orElse (ha : Lockstep d d' a α) (hb : Lockstep d d' b β) :
    Lockstep d d' (orElse a b) (Account.orElse a α β) := by
  refine ⟨extending_orElse ha.1 hb.1, fun s hmax hdepth =>
    or_iff_not_imp_right.2 fun htogether => ?_⟩
  have hfirst : Transports (withMaxDepth d') a α s := (ha.2 hmax hdepth).resolve_right fun hpart =>
    htogether (hpart.mono Account.subset_orElse_left Account.subset_orElse_left)
  refine transports_orElse hfirst fun t ht => ?_
  refine (hb.next (ha.1 ht) hmax hdepth).resolve_right fun hpart => htogether (hpart.mono ?_ ?_)
  · exact Account.subset_orElse_right ht
  · exact Account.subset_orElse_right (hfirst.failed ht)

theorem lockstep_recover (ha : Lockstep d d' a α) : Lockstep d d' (recover a) α :=
  ⟨closed_extending.recover ha.1, fun _ hmax hdepth =>
    (ha.2 hmax hdepth).imp_left transports_recover⟩

theorem lockstep_sequence (ha : Lockstep d d' a α) : Lockstep d d' (sequence a) α :=
  ⟨extending_sequence ha.1, fun _ hmax hdepth =>
    (ha.2 hmax hdepth).imp_left (transports_sequence (respected_withMaxDepth d'))⟩

theorem lockstep_alternative (ha : Lockstep d d' a α) (hb : Lockstep d d' b β) :
    Lockstep d d' (alternative a b) (Account.alternative a α β) := by
  refine ⟨closed_extending.alternative ha.1 hb.1, fun s hmax hdepth =>
    or_iff_not_imp_right.2 fun htogether => ?_⟩
  have hfirst (hfree : s.isAborted = false) : Transports (withMaxDepth d') a α s :=
    (ha.2 hmax hdepth).resolve_right fun hpart => htogether <| hpart.mono
      (Account.subset_alternative_left hfree) (Account.subset_alternative_left hfree)
  refine transports_alternative (respected_withMaxDepth d') hfirst fun t hfree ht => ?_
  have hext : s.Extends t := extending_sequence ha.1 ht
  have ht' := (transports_sequence (respected_withMaxDepth d') (hfirst hfree)).failed ht
  refine (hb.next hext hmax hdepth).resolve_right fun hpart => htogether (hpart.mono ?_ ?_)
  · exact Account.subset_alternative_right hfree ht
  · exact Account.subset_alternative_right hfree ht'

/-- The loops of a repetition go the same way, or else the accounts part. -/
theorem lockstep_loop (ha : Lockstep d d' a α) (bounds : Notation.Repeat) (attempts count : Nat)
    (hmax : s.maxDepth = d) (hdepth : s.diagnostics.depth ≤ d) :
    TransportsLoop (withMaxDepth d') bounds a α attempts count s ∨
      Moment.Part d (Account.occurrences bounds a α attempts count s)
        (Account.occurrences bounds a α attempts count (s.withMaxDepth d')) := by
  refine or_iff_not_imp_right.2 fun htogether => ?_
  -- each turn leaves the limit and the number of active rules, and a later turn at which the
  -- accounts part is part of the loop that starts here
  induction attempts generalizing count s with
  | zero =>
    exact transportsLoop_turn (respected_withMaxDepth d') (fun _ h => nomatch h)
      fun _ _ h => nomatch h
  | succ left ih =>
    have hfirst (hroom : isFull bounds count = false) (hfree : s.isAborted = false) :
        Transports (withMaxDepth d') a α s :=
      (ha.2 hmax hdepth).resolve_right fun hpart => htogether <| hpart.mono
        (Account.subset_occurrences_now hroom hfree) (Account.subset_occurrences_now hroom hfree)
    refine transportsLoop_turn (respected_withMaxDepth d') (fun _ _ => hfirst) ?_
    intro left' t hleft hroom hfree ht hon
    obtain rfl := Nat.succ.inj hleft
    have hext : s.Extends t := extending_sequence ha.1 ht
    have ht' := (transports_sequence (respected_withMaxDepth d') (hfirst hroom hfree)).matched ht
    refine ih (count + 1) (hext.maxDepth.trans hmax) (hext.depth_eq ▸ hdepth) fun hpart => ?_
    refine htogether (hpart.mono ?_ ?_)
    · exact Account.subset_occurrences_later hroom hfree ht hon
    · exact Account.subset_occurrences_later hroom hfree ht' hon

theorem lockstep_repeated (bounds : Notation.Repeat) (ha : Lockstep d d' a α) :
    Lockstep d d' (repeated bounds a) (Account.repeated bounds a α) := by
  refine ⟨extending_repeated bounds ha.1, fun s hmax hdepth => ?_⟩
  have hloop := lockstep_loop ha bounds (attempts bounds s.rest) 0 hmax hdepth
  cases hvalid : bounds.validate with
  | error cause =>
    have habort : Transports (withMaxDepth d') (abort (.badNotation bounds.render cause))
        (Account.abort (.badNotation bounds.render cause)) s := transports_abort rfl
    left
    rw [transports_iff, repeated, repeated, Account.repeated, Account.repeated, hvalid]
    exact ⟨habort.outcome, habort.account⟩
  | ok =>
    refine hloop.imp (transports_repeated (respected_withMaxDepth d') fun _ => rfl) fun hpart => ?_
    rw [Account.repeated, Account.repeated, hvalid]
    exact hpart

/-- **Where the runs part.**  At the limit `d` the first run refuses the rule, and the second one,
with a greater limit, enters it.  Below the limit both enter it. -/
theorem lockstep_rule (tag : R) (hlt : d < d') (ha : Lockstep d d' a α) :
    Lockstep d d' (rule tag a) (Account.rule tag α) := by
  refine ⟨extending_rule tag ha.1, fun s hmax hdepth => or_iff_not_imp_right.2 fun htogether => ?_⟩
  have hmore : s.diagnostics.depth < d' := Nat.lt_of_le_of_lt hdepth hlt
  have hroom (hfree : s.isAborted = false) : s.diagnostics.depth < d := by
    refine Nat.lt_of_not_le fun hfull => htogether ⟨⟨s, ?_⟩, (s.withMaxDepth d').enter tag, ?_, ?_⟩
    · rw [Account.rule_of_full hfree (hmax ▸ hfull)]
      exact List.mem_singleton_self _
    · rw [Account.rule_of_room (s := s.withMaxDepth d') hfree hmore]
      exact List.mem_cons_self
    · exact Nat.lt_succ_of_le hfull
  refine transports_rule (respected_withMaxDepth d') (fun hfree => ?_) (fun hfree hfull => ?_) ?_
  · have hbelow := hroom hfree
    exact iff_of_false (Nat.not_le_of_lt hmore) (Nat.not_le_of_lt (hmax.symm ▸ hbelow))
  · exact absurd (hroom hfree) (Nat.not_lt_of_le (hmax ▸ hfull))
  · intro hfree hbelow
    refine (ha.2 (s := s.enter tag) hmax (hroom hfree)).resolve_right fun hpart => ?_
    refine htogether (hpart.mono (Account.subset_rule hfree hbelow) ?_)
    exact Account.subset_rule (s := s.withMaxDepth d') hfree hmore

theorem closed_lockstep [DecidableEq R] (hlt : d < d') :
    Account.Closed (Lockstep (R := R) d d') where
  never := .of_transports closed_extending.never fun _ => transports_never
  succeed := .of_transports closed_extending.succeed fun _ => transports_succeed
  fail := .of_transports closed_extending.fail fun _ => transports_fail
  test := fun p => .of_transports (closed_extending.test _) fun s =>
    transports_test (by cases p <;> rfl)
  abort := fun e => .of_transports (closed_extending.abort e) fun _ => transports_abort rfl
  pattern := fun p => .of_transports (extending_pattern p) fun _ =>
    transports_pattern (respected_withMaxDepth d') p
  andThen := lockstep_andThen
  orElse := lockstep_orElse
  recover := lockstep_recover
  sequence := lockstep_sequence
  alternative := lockstep_alternative
  repeated := fun bounds _ _ ha => lockstep_repeated bounds ha
  rule := fun tag _ _ ha => lockstep_rule tag hlt ha

end Body

theorem Outcome.map_withMaxDepth_self {o : Outcome R} {d : Nat} (h : o.state.maxDepth = d) :
    o.map (State.withMaxDepth d) = o := by
  subst h
  cases o <;> rfl

variable [DecidableEq R]

/-- The states of a parse keep within the limit. -/
theorem Reached.bounded {input : Text} {origin : Nat} {s : State R} (h : Reached input origin s) :
    s.Bounded := by
  induction h with
  | start config => exact State.bounded_ofCursor _ config
  | startingAt h =>
    obtain ⟨c, -, rfl⟩ := State.startingAt_eq_ok h
    exact State.bounded_ofCursor c _
  | enter tag _ _ hroom _ => exact State.bounded_enter hroom tag
  | apply rules e _ ho ih => exact (composing_bounded.eval rules ho ih).1

namespace Expr

variable {n k d' : Nat} {rules : Rules R n} {e : Expr R n} {s : State R} {o o' : Outcome R}

/-- Every moment of an evaluation keeps within the limit. -/
theorem within_of_mem_account (hs : s.Bounded) (ho : eval rules k e s = some o) {m : Moment R}
    (hm : m ∈ account rules k e s) : m.Within s.maxDepth :=
  (composing_bounded.eval rules ho hs).2 m hm

theorem hitLimit_of_refused (ho : eval rules k e s = some o) {t : State R}
    (ht : .refused t ∈ account rules k e s) : o.state.HitLimit :=
  ⟨_, _, composing_refused.eval rules ho t ht⟩

/-- **Two limits.**  From one state with two limits the evaluations go the same way, or else their
accounts part at the lower one. -/
theorem transports_or_part (rules : Rules R n) (k : Nat) (e : Expr R n) (hs : s.Bounded)
    (hlt : s.maxDepth < d') :
    Body.Transports (State.withMaxDepth d') (eval rules k e) (account rules k e) s ∨
      Moment.Part s.maxDepth (account rules k e s) (account rules k e (s.withMaxDepth d')) :=
  ((Body.closed_lockstep hlt).eval rules k e).2 rfl hs.depth

/-- Where the limit was not hit, a greater one makes no difference. -/
theorem eval_withMaxDepth (hs : s.Bounded) (hle : s.maxDepth ≤ d')
    (ho : eval rules k e s = some o) (hfree : ¬o.state.HitLimit) :
    eval rules k e (s.withMaxDepth d') = some (o.map (State.withMaxDepth d')) := by
  rcases Nat.eq_or_lt_of_le hle with rfl | hlt
  · rw [Outcome.map_withMaxDepth_self (eval_extends rules k e ho).maxDepth]
    exact ho
  · rcases transports_or_part rules k e hs hlt with hsame | hpart
    · rw [hsame.outcome, ho, Option.map_some]
    · obtain ⟨t, ht⟩ := hpart.refused
      exact absurd (hitLimit_of_refused ho ht) hfree

/-- The limit is hit just when a greater one, that is not hit, lets more rules be active. -/
theorem hitLimit_iff_deeper (hs : s.Bounded) (hlt : s.maxDepth < d')
    (ho : eval rules k e s = some o) (ho' : eval rules k e (s.withMaxDepth d') = some o')
    (hfree : ¬o'.state.HitLimit) :
    o.state.HitLimit ↔ ∃ t, .entered t ∈ account rules k e (s.withMaxDepth d') ∧
      s.maxDepth < t.diagnostics.depth := by
  rcases transports_or_part rules k e hs hlt with hsame | hpart
  · -- then neither side holds: the outcomes are the same, and so are the moments
    have hsame' : o' = o.map (State.withMaxDepth d') := by
      have houtcome := hsame.outcome
      rw [ho, ho'] at houtcome
      exact Option.some.inj houtcome
    constructor
    · intro hhit
      rw [hsame', Outcome.state_map] at hfree
      exact absurd hhit hfree
    · rintro ⟨t, ht, hdeep⟩
      rw [hsame.account] at ht
      obtain ⟨m, hm, hmap⟩ := List.mem_map.1 ht
      have hwithin := within_of_mem_account hs ho hm
      cases m with
      | missed u => cases hmap
      | refused u => cases hmap
      | raised err u => cases hmap
      | entered u =>
        obtain rfl := Moment.entered.inj hmap
        have hdepth : u.diagnostics.depth ≤ s.maxDepth := hwithin.maxDepth ▸ hwithin.bounded.depth
        exact absurd hdeep (Nat.not_lt_of_le hdepth)
  · obtain ⟨t, ht⟩ := hpart.refused
    exact iff_of_true (hitLimit_of_refused ho ht) hpart.deeper

/-- Where the error comes from that names a limit. -/
theorem limit_of_mem_errors (hs : s.Bounded) (ho : eval rules k e s = some o) {limit offset : Nat}
    (h : .recursionLimit limit offset ∈ Moment.errors (account rules k e s)) :
    (limit = s.maxDepth ∧ ∃ t, .refused t ∈ account rules k e s ∧
        t.diagnostics.depth = s.maxDepth ∧ t.offset = offset) ∨
      e.Raises (.recursionLimit limit offset) ∨
      ∃ i, (rules i).Raises (.recursionLimit limit offset) := by
  obtain ⟨m, hm, herror⟩ := Moment.mem_errors_iff.1 h
  have hwithin := within_of_mem_account hs ho hm
  cases m with
  | missed t => cases herror
  | entered t => cases herror
  | refused t =>
    obtain ⟨rfl, rfl⟩ := Error.recursionLimit.inj (Option.some.inj herror)
    exact .inl ⟨hwithin.maxDepth, t, hm, hwithin.refused t rfl, rfl⟩
  | raised err t =>
    obtain rfl := Option.some.inj herror
    rcases raises_of_mem_account rules hm with ⟨source, cause, hbad⟩ | hgrammar
    · cases hbad
    · exact .inr hgrammar

omit [DecidableEq R] in
/-- A greater limit sets aside no less depth for references. -/
theorem nesting_le_withMaxDepth (rules : Rules R n) (e : Expr R n) (hle : s.maxDepth ≤ d') :
    nesting rules e s ≤ nesting rules e (s.withMaxDepth d') := by
  have hcounts : (s.maxDepth + 1) * (max rules.mostNodes e.mostNodes + 2) ≤
      (d' + 1) * (max rules.mostNodes e.mostNodes + 2) :=
    Nat.mul_le_mul_right _ (Nat.succ_le_succ hle)
  exact Nat.mul_le_mul_left n (Nat.succ_le_succ (Nat.add_le_add_right hcounts s.rest.byteLength))

/-- **The limit bounds depth and changes nothing else.**  In every state that a parse comes to, no
more rules are active than the limit says, and no tree is higher.  The same holds at every moment
of an evaluation, which keeps the limit and is given up for the error raised first.  An error
that names a limit names this one and the place where a rule was refused with as many active, if
it is not an error that the grammar itself names.

If the limit was not hit in the end, a greater limit gives the same outcome.  And if a greater one
was not hit, this one was just when there are more rules active at some moment with the greater
one.  Under guarded rules every evaluation has an outcome. -/
theorem limit_bounds_depth_only (rules : Rules R n) (e : Expr R n) {input : Text} {origin : Nat}
    {s : State R} (hs : Reached input origin s) :
    (s.diagnostics.depth ≤ s.maxDepth ∧ ∀ t ∈ s.nodes, t.height ≤ s.maxDepth) ∧
      (∀ o, body rules e s = some o →
        o.state.maxDepth = s.maxDepth ∧
          o.state.fatal = (s.fatal <|> (Moment.errors (moments rules e s)).head?) ∧
          (∀ m ∈ moments rules e s, m.state.maxDepth = s.maxDepth ∧
            m.state.diagnostics.depth ≤ s.maxDepth ∧ ∀ t ∈ m.state.nodes, t.height ≤ s.maxDepth) ∧
          ∀ limit offset, .recursionLimit limit offset ∈ Moment.errors (moments rules e s) →
            (limit = s.maxDepth ∧ ∃ t, .refused t ∈ moments rules e s ∧
                t.diagnostics.depth = s.maxDepth ∧ t.offset = offset) ∨
              e.Raises (.recursionLimit limit offset) ∨
              ∃ i, (rules i).Raises (.recursionLimit limit offset)) ∧
      (rules.Guarded → ∃ o, body rules e s = some o) ∧
      ∀ d', s.maxDepth ≤ d' →
        (∀ o, body rules e s = some o → ¬o.state.HitLimit →
          body rules e (s.withMaxDepth d') = some (o.map (State.withMaxDepth d'))) ∧
        ∀ o o', s.maxDepth < d' → body rules e s = some o →
          body rules e (s.withMaxDepth d') = some o' → ¬o'.state.HitLimit →
          (o.state.HitLimit ↔ ∃ t, .entered t ∈ moments rules e (s.withMaxDepth d') ∧
            s.maxDepth < t.diagnostics.depth) := by
  have hbounded := hs.bounded
  refine ⟨⟨hbounded.depth, hbounded.height_le⟩, fun o ho => ⟨?_, ?_, fun m hm => ?_, ?_⟩, ?_,
    fun d' hle => ⟨fun o ho hfree => ?_, fun o o' hlt ho ho' hfree => ?_⟩⟩
  · exact (eval_extends rules _ e ho).maxDepth
  · exact fatal_eq_first ho
  · have hwithin := within_of_mem_account hbounded ho hm
    obtain ⟨hmax, hstate, -⟩ := hwithin
    exact ⟨hmax, hmax ▸ hstate.depth, hmax ▸ hstate.height_le⟩
  · exact fun limit offset herror => limit_of_mem_errors hbounded ho herror
  · exact fun hguarded => exists_eval hguarded e (le_nesting rules e s)
  · have hsame := eval_withMaxDepth hbounded hle ho hfree
    exact eval_mono rules (nesting_le_withMaxDepth rules e hle) e hsame
  · have hdeep := eval_mono rules (nesting_le_withMaxDepth rules e hle) e ho
    exact hitLimit_iff_deeper hbounded hlt hdeep ho' hfree

/-- One rule inside another, with a limit of one, two and three: the hypotheses of
`limit_bounds_depth_only` are satisfiable where the limit is hit and the grammar recovers. -/
theorem limit_bounds_depth_only_nested :
    let rules : Rules Unit 0 := Fin.elim0
    let e : Expr Unit 0 := .recover (.rule () (.rule () (.pattern (.character 'a'))))
    let s (d : Nat) : State Unit := .start ['a'] (Config.standard.withMaxDepth d)
    Reached ['a'] 0 (s 1) ∧ Reached ['a'] 0 (s 2) ∧ rules.Guarded ∧
      ∃ o o', body rules e (s 1) = some o ∧ body rules e (s 2) = some o' ∧ ¬o'.state.HitLimit ∧
        o'.state.nodes.map Node.height = [2] ∧
        .recursionLimit 1 0 ∈ Moment.errors (moments rules e (s 1)) ∧
        (o.state.HitLimit ↔
          ∃ t, .entered t ∈ moments rules e (s 2) ∧ (s 1).maxDepth < t.diagnostics.depth) ∧
        body rules e (s 3) = some (o'.map (State.withMaxDepth 3)) := by
  intro rules e s
  have hs (d : Nat) : Reached ['a'] 0 (s d) := .start _
  obtain ⟨o, ho, herror⟩ : ∃ o, body rules e (s 1) = some o ∧
      .recursionLimit 1 0 ∈ Moment.errors (moments rules e (s 1)) :=
    ⟨_, rfl, List.mem_singleton_self _⟩
  obtain ⟨o', ho', hfatal, hheight⟩ : ∃ o', body rules e (s 2) = some o' ∧
      o'.state.fatal = none ∧ o'.state.nodes.map Node.height = [2] := ⟨_, rfl, rfl, rfl⟩
  have hfree : ¬o'.state.HitLimit := by
    rintro ⟨limit, offset, hhit⟩
    cases hfatal.symm.trans hhit
  obtain ⟨-, -, -, hlimits⟩ := limit_bounds_depth_only rules e (hs 1)
  obtain ⟨-, -, -, hlimits'⟩ := limit_bounds_depth_only rules e (hs 2)
  have hdeeper : (s 1).withMaxDepth 2 = s 2 := State.withMaxDepth_ofCursor 2 _ _
  have hparts := (hlimits 2 (Nat.le_succ 1)).2 o o' (Nat.lt_succ_self 1) ho (hdeeper ▸ ho') hfree
  exact ⟨hs 1, hs 2, fun i => i.elim0, o, o', ho, ho', hfree, hheight, herror, hparts,
    (hlimits' 3 (Nat.le_succ 2)).1 o' ho' hfree⟩

end Expr
end Descent
