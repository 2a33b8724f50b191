/-
# What the root tells of the input

A parse reports how much of the input it took by the end of its root, and `parseComplete`
accepts when that end is the end of the input.  The place where the body stopped is not asked
for.  The root lies before that place, so a body that leaves some of the input is never taken
for complete; but nothing says that the root begins at the start, or that the body stops where
the root ends:

| body | input | stops after | root | `parseComplete` |
| --- | --- | --- | --- | --- |
| the rule `A` for `a` | `a` | 1 byte | 0 to 1 | accepts |
| `x`, then the rule | `xa` | 2 bytes | 1 to 2 | accepts |
| the rule, then `b` | `ab` | 2 bytes | 0 to 1 | `trailingInput`, 1 of 2 bytes |

`Outcome.Leaves` says when there is a root at all, and `Expr.root_within_consumed` what is true
of it.  The root is all that was taken when the body is that of a rule, or a choice or sequence
of nothing else (`Expr.Rooted`): such a body fails without a trace, and matches with one node
from where it began to where it ends (`Body.Rooting`).
-/

import Descent.Proofs.GivenUp
import Descent.Proofs.Placement

namespace Descent

variable {R : Type}

namespace Text

/-- The slice from the start to the end is the text. -/
theorem eq_of_slice?_full {t b : Text} (h : t.slice? 0 t.byteLength = some b) : b = t := by
  obtain ⟨before, after, ht, hbefore, hlen⟩ := slice?_eq_some_iff.1 h
  obtain rfl := byteLength_eq_zero.1 hbefore
  have hafter : after.byteLength = 0 := by
    have htotal := congrArg byteLength ht
    rw [byteLength_append, byteLength_append] at htotal
    omega
  obtain rfl := byteLength_eq_zero.1 hafter
  rw [ht, List.nil_append, List.append_nil]

end Text

/-- The body matched, the parse is not given up, and the root is its only node. -/
structure Outcome.Leaves (o : Outcome R) (root : Node R) : Prop where
  matched : o.isMatched = true
  free : o.state.isAborted = false
  nodes : o.state.nodes = [root]

namespace Parse

variable [Tag R] {name input : Text} {o : Outcome R}

/-- **A tree is the answer just when there is a root.** -/
theorem conclude_eq_ok_iff {p : Parsed R} :
    conclude name input o = .ok p ↔
      o.Leaves p.node ∧ p.inputLength = input.byteLength ∧
        p.trace = o.state.diagnostics.events? := by
  constructor
  · intro h
    cases hfatal : o.state.fatal with
    | some e =>
      rw [conclude_of_fatal hfatal] at h
      cases h
    | none =>
      have hfree : o.state.isAborted = false := by
        rw [State.isAborted, hfatal]
        rfl
      rw [conclude_of_free hfree] at h
      split at h
      · rename_i hmatched
        split at h
        · rename_i root hnodes
          obtain rfl := Except.ok.inj h
          exact ⟨⟨hmatched, hfree, hnodes⟩, rfl, rfl⟩
        · cases h
      · cases h
  · rintro ⟨hleaves, hlength, htrace⟩
    rw [conclude_of_free hleaves.free, if_pos hleaves.matched, hleaves.nodes]
    obtain ⟨node, inputLength, trace⟩ := p
    obtain rfl : inputLength = input.byteLength := hlength
    obtain rfl : trace = o.state.diagnostics.events? := htrace
    rfl

/-- The number of nodes is the answer just when it is not one. -/
theorem conclude_eq_rootCount_iff (hfree : o.state.isAborted = false) {rule : Text} {count : Nat} :
    conclude name input o = .error (.rootCount rule count) ↔
      o.isMatched = true ∧ rule = name ∧ o.state.nodes.length = count ∧ count ≠ 1 := by
  rw [conclude_of_free hfree]
  constructor
  · intro h
    split at h
    · rename_i hmatched
      split at h
      · cases h
      · rename_i hmany
        obtain ⟨rfl, rfl⟩ := Error.rootCount.inj (Except.error.inj h)
        refine ⟨hmatched, rfl, rfl, fun hone => ?_⟩
        obtain ⟨root, hroot⟩ := List.length_eq_one_iff.1 hone
        exact hmany root hroot
    · cases h
  · rintro ⟨hmatched, rfl, rfl, hmany⟩
    rw [if_pos hmatched]
    split
    · rename_i root hroot
      rw [hroot] at hmany
      exact absurd rfl hmany
    · rfl

end Parse

namespace Grammar

variable [Tag R] {g : Grammar R} {name input : Text} {body : Body R} {o : Outcome R}

theorem parseComplete_eq (hg : g.get name = .ok body)
    (ho : body (.start input .standard) = some o) :
    g.parseComplete name input = some (Parse.conclude name input o >>= complete name) := by
  rw [parseComplete, parseWith, hg]
  show ((Parse.run name body input .standard).map _) = _
  rw [Parse.run, ho]
  rfl

/-- **The input counts as taken when the root ends where it ends.** -/
theorem parseComplete_eq_ok_iff (hg : g.get name = .ok body)
    (ho : body (.start input .standard) = some o) {root : Node R} :
    g.parseComplete name input = some (.ok root) ↔
      o.Leaves root ∧ root.stop = input.byteLength := by
  rw [parseComplete_eq hg ho, Option.some.injEq]
  constructor
  · intro h
    cases hanswer : Parse.conclude name input o with
    | error e =>
      rw [hanswer] at h
      cases h
    | ok p =>
      obtain ⟨hleaves, hlength, -⟩ := Parse.conclude_eq_ok_iff.1 hanswer
      rw [hanswer] at h
      have h : complete name p = .ok root := h
      unfold complete at h
      split at h
      · rename_i hcomplete
        obtain rfl := Except.ok.inj h
        exact ⟨hleaves, (beq_iff_eq.1 hcomplete).trans hlength⟩
      · cases h
  · rintro ⟨hleaves, hstop⟩
    have hanswer : Parse.conclude name input o =
        .ok ⟨root, input.byteLength, o.state.diagnostics.events?⟩ :=
      Parse.conclude_eq_ok_iff.2 ⟨hleaves, rfl, rfl⟩
    rw [hanswer]
    exact if_pos (beq_iff_eq.2 hstop)

/-- **And some of it counts as left when the root ends elsewhere.** -/
theorem parseComplete_eq_trailingInput_iff (hg : g.get name = .ok body)
    (ho : body (.start input .standard) = some o) (hfree : o.state.isAborted = false)
    {rule : Text} {consumed length : Nat} :
    g.parseComplete name input = some (.error (.trailingInput rule consumed length)) ↔
      rule = name ∧ length = input.byteLength ∧ consumed ≠ length ∧
        ∃ root, o.Leaves root ∧ root.stop = consumed := by
  rw [parseComplete_eq hg ho, Option.some.injEq]
  constructor
  · intro h
    cases hanswer : Parse.conclude name input o with
    | error e =>
      rw [hanswer] at h
      obtain rfl : e = .trailingInput rule consumed length := Except.error.inj h
      rw [Parse.conclude_of_free hfree] at hanswer
      split at hanswer
      · split at hanswer <;> cases hanswer
      · cases hanswer
    | ok p =>
      obtain ⟨hleaves, hlength, -⟩ := Parse.conclude_eq_ok_iff.1 hanswer
      rw [hanswer] at h
      have h : complete name p = .error (.trailingInput rule consumed length) := h
      unfold complete at h
      split at h
      · cases h
      · rename_i hpart
        obtain ⟨rfl, rfl, rfl⟩ := Error.trailingInput.inj (Except.error.inj h)
        exact ⟨rfl, hlength, fun heq => hpart (beq_iff_eq.2 heq), p.node, hleaves, rfl⟩
  · rintro ⟨rfl, rfl, hpart, root, hleaves, rfl⟩
    have hanswer : Parse.conclude rule input o =
        .ok ⟨root, input.byteLength, o.state.diagnostics.events?⟩ :=
      Parse.conclude_eq_ok_iff.2 ⟨hleaves, rfl, rfl⟩
    rw [hanswer]
    exact if_neg fun hcomplete => hpart (beq_iff_eq.1 hcomplete)

end Grammar

namespace Body

variable {a b : Body R}

/-- A failure leaves no trace.  A match leaves one node, unless the parse is given up; it spans
all from the place where the body began to the place where it ends. -/
structure Rooting (a : Body R) : Prop where
  restoring : Restoring a
  root : ∀ {s t}, a s = some (.matched t) → t.isAborted = false →
    ∃ root, t.found = root :: s.found ∧ root.start = s.offset ∧ root.stop = t.offset

theorem rooting_never : Rooting (fun _ => none : Body R) where
  restoring := fun _ _ h => nomatch h
  root := fun h => nomatch h

theorem rooting_fail : Rooting (fail : Body R) where
  restoring := restoring_fail
  root := fun h => nomatch Option.some.inj h

theorem rooting_abort (e : Error) : Rooting (abort e : Body R) where
  restoring := restoring_abort e
  root := fun h => nomatch Option.some.inj h

theorem rooting_rule (tag : R) (a : Body R) : Rooting (rule tag a) where
  restoring := restoring_rule tag a
  root := by
    intro s t h hfree
    rcases rule_eq_some h with ⟨-, ho⟩ | ⟨-, -, ho⟩ | ⟨-, -, p, -, ⟨-, -, ho⟩ | ⟨-, ho⟩⟩
    · cases ho
    · cases ho
    · obtain rfl := Outcome.matched.inj ho
      exact ⟨_, rfl, rfl, rfl⟩
    · cases ho

theorem rooting_sequence (hext : Extending a) (ha : Rooting a) : Rooting (sequence a) where
  restoring := restoring_sequence hext
  root := fun h => ha.root (sequence_eq_matched_iff.1 h)

/-- Where the first part fails without a trace, the second one begins at the same place. -/
theorem rooting_orElse (ha : Rooting a) (hb : Rooting b) : Rooting (orElse a b) where
  restoring := restoring_orElse ha.restoring hb.restoring
  root := by
    intro s t h hfree
    rcases orElse_eq_some h with ⟨u, hu, hbu⟩ | ⟨u, hu, ho⟩
    · obtain ⟨hcursor, hfound⟩ := ha.restoring hu
      obtain ⟨root, hroot, hstart, hstop⟩ := hb.root hbu hfree
      have hoffset : u.offset = s.offset := congrArg Cursor.offset hcursor
      exact ⟨root, hfound ▸ hroot, hstart.trans hoffset, hstop⟩
    · obtain rfl := Outcome.matched.inj ho
      exact ha.root hu hfree

theorem rooting_alternative (hext : Extending a) (ha : Rooting a) (hb : Rooting b) :
    Rooting (alternative a b) where
  restoring := restoring_alternative hext hb.restoring
  root := by
    intro s t h hfree
    rcases alternative_eq_some h with ⟨-, ho⟩ | ⟨-, h⟩
    · cases ho
    · exact (rooting_orElse (rooting_sequence hext ha) hb).root h hfree

end Body

namespace Expr

variable {n : Nat}

/-- The expression is a rule, or made of rules by sequences and choices alone; the references
to be counted among rules are given. -/
def Rooted (named : Fin n → Prop) : Expr R n → Prop
  | fail | abort _ | rule _ _ => True
  | sequence a => a.Rooted named
  | orElse a b | alternative a b => a.Rooted named ∧ b.Rooted named
  | ref i => named i
  | succeed | test _ | pattern _ | written _ | andThen _ _ | recover _ | repeated _ _ => False

variable [DecidableEq R]

theorem rooting_denote {env : Fin n → Body R} {named : Fin n → Prop}
    (hext : ∀ i, Body.Extending (env i)) (henv : ∀ i, named i → Body.Rooting (env i))
    {e : Expr R n} (he : e.Rooted named) : Body.Rooting (denote env e) := by
  induction e with
  | fail => exact Body.rooting_fail
  | abort e => exact Body.rooting_abort e
  | rule tag a _ => exact Body.rooting_rule tag _
  | sequence a ih =>
    exact Body.rooting_sequence (Body.closed_extending.denote hext a) (ih he)
  | orElse a b iha ihb => exact Body.rooting_orElse (iha he.1) (ihb he.2)
  | alternative a b iha ihb =>
    exact Body.rooting_alternative (Body.closed_extending.denote hext a) (iha he.1) (ihb he.2)
  | ref i => exact henv i he
  | succeed | test _ | pattern _ | written _ | andThen _ _ | recover _ | repeated _ _ =>
    exact he.elim

/-- By induction on the depth of references. -/
theorem rooting_eval {rules : Rules R n} {named : Fin n → Prop}
    (hnamed : ∀ i, named i → (rules i).Rooted named) {e : Expr R n} (he : e.Rooted named)
    (k : Nat) : Body.Rooting (eval rules k e) := by
  have hunfold (k : Nat) (i : Fin n) (hi : named i) : Body.Rooting (unfold rules k i) := by
    induction k generalizing i with
    | zero => exact Body.rooting_never
    | succ k ih =>
      exact rooting_denote (Body.closed_extending.unfold rules k) ih (hnamed i hi)
  exact rooting_denote (Body.closed_extending.unfold rules k) (hunfold k) he

/-- The root lies in what the body took, and spells its stretch of the input. -/
theorem root_placed {rules : Rules R n} {e : Expr R n} {input : Text} {config : Config}
    {o : Outcome R} (ho : body rules e (.start input config) = some o) {root : Node R}
    (hroot : o.Leaves root) :
    root.start ≤ root.stop ∧ root.stop ≤ o.state.offset ∧ o.state.offset ≤ input.byteLength ∧
      input.slice? root.start root.stop = some root.text := by
  obtain ⟨⟨hend, -, -⟩, hplaced, horder⟩ :=
    reached_placed ((Reached.start (R := R) config).apply rules e ho)
  rw [hroot.nodes] at hplaced horder
  have hmem : root ∈ Node.preorderAll [root] := by
    rw [Node.preorderAll, Node.preorder_eq]
    exact List.mem_append_left _ (List.mem_cons_self)
  obtain ⟨-, -, -, -, htext, -⟩ := hplaced root hmem
  obtain ⟨-, hle, hstop⟩ := horder
  exact ⟨hle, hstop, hend, htext⟩

/-- **The root of a rule is all that its body took**, which a parse starts with no node before it. -/
theorem leaves_of_rooted {rules : Rules R n} {named : Fin n → Prop}
    (hnamed : ∀ i, named i → (rules i).Rooted named) {e : Expr R n} (he : e.Rooted named)
    {input : Text} {config : Config} {o : Outcome R}
    (ho : body rules e (.start input config) = some o) (hmatched : o.isMatched = true)
    (hfree : o.state.isAborted = false) :
    ∃ root, o.Leaves root ∧ root.start = 0 ∧ root.stop = o.state.offset ∧
      (o.state.offset = input.byteLength → root.text = input) := by
  obtain ⟨s, rfl⟩ : ∃ s, o = .matched s := by
    cases o with
    | matched s => exact ⟨s, rfl⟩
    | failed s => cases hmatched
  obtain ⟨root, hfound, hstart, hstop⟩ := (rooting_eval hnamed he _).root ho hfree
  have hstart : root.start = 0 := hstart
  have hnodes : s.nodes = [root] := by
    rw [State.nodes, hfound]
    rfl
  have hroot : (Outcome.matched s).Leaves root := ⟨hmatched, hfree, hnodes⟩
  refine ⟨root, hroot, hstart, hstop, fun hall => ?_⟩
  obtain ⟨-, -, -, htext⟩ := root_placed ho hroot
  have hend : root.stop = input.byteLength := hstop.trans hall
  rw [hstart, hend] at htext
  exact Text.eq_of_slice?_full htext

/-- **What a root tells of the input that was taken.**  A parse answers with a tree just when its
body matches with one node and is not given up, and with `rootCount` just when it matches with
another number of nodes.  The root lies in what the body took, and spells its stretch of the
input.  `parseComplete` accepts just when the root ends where the input ends, and all of the input
was taken then; it answers with `trailingInput` just when the root ends elsewhere.  For a body that
matches with rules alone the root is all that the body took: it begins at the start and ends where
the body stopped, so that `parseComplete` accepts just when the body took all of the input, and
the root spells the input then. -/
theorem root_within_consumed [Tag R] (rules : Rules R n) (e : Expr R n) (input : Text) :
    (∀ (config : Config) (o : Outcome R), body rules e (.start input config) = some o →
        (∀ (name : Text) (p : Parsed R),
          Parse.run name (body rules e) input config = some (.ok p) ↔
            o.Leaves p.node ∧ p.inputLength = input.byteLength ∧
              p.trace = o.state.diagnostics.events?) ∧
          (o.state.isAborted = false → ∀ (name : Text) (count : Nat),
            Parse.run name (body rules e) input config = some (.error (.rootCount name count)) ↔
              o.isMatched = true ∧ o.state.nodes.length = count ∧ count ≠ 1) ∧
          ∀ root, o.Leaves root →
            root.start ≤ root.stop ∧ root.stop ≤ o.state.offset ∧
              o.state.offset ≤ input.byteLength ∧
              input.slice? root.start root.stop = some root.text) ∧
      (∀ (g : Grammar R) (name : Text) (o : Outcome R), g.get name = .ok (body rules e) →
        body rules e (.start input .standard) = some o →
          (∀ root, g.parseComplete name input = some (.ok root) ↔
              o.Leaves root ∧ root.stop = input.byteLength) ∧
            (∀ root, g.parseComplete name input = some (.ok root) →
              o.state.offset = input.byteLength) ∧
            (o.state.isAborted = false → ∀ consumed length,
              g.parseComplete name input =
                  some (.error (.trailingInput name consumed length)) ↔
                length = input.byteLength ∧ consumed ≠ length ∧
                  ∃ root, o.Leaves root ∧ root.stop = consumed)) ∧
      ∀ named : Fin n → Prop, (∀ i, named i → (rules i).Rooted named) → e.Rooted named →
        ∀ (config : Config) (o : Outcome R), body rules e (.start input config) = some o →
          o.isMatched = true → o.state.isAborted = false →
            ∃ root, o.Leaves root ∧ root.start = 0 ∧ root.stop = o.state.offset ∧
              (o.state.offset = input.byteLength → root.text = input) ∧
              ∀ (g : Grammar R) (name : Text), g.get name = .ok (body rules e) →
                config = .standard →
                  (o.state.offset = input.byteLength →
                      g.parseComplete name input = some (.ok root)) ∧
                    (o.state.offset ≠ input.byteLength →
                      g.parseComplete name input = some (.error
                        (.trailingInput name o.state.offset input.byteLength))) := by
  refine ⟨fun config o ho => ⟨fun name p => ?_, fun hfree name count => ?_, fun root hroot => ?_⟩,
    fun g name o hg ho => ⟨fun root => ?_, fun root h => ?_, fun hfree consumed length => ?_⟩, ?_⟩
  · rw [Parse.run, ho, Option.map_some, Option.some.injEq]
    exact Parse.conclude_eq_ok_iff
  · rw [Parse.run, ho, Option.map_some, Option.some.injEq, Parse.conclude_eq_rootCount_iff hfree]
    exact and_congr_right fun _ => and_iff_right rfl
  · exact root_placed ho hroot
  · exact Grammar.parseComplete_eq_ok_iff hg ho
  · obtain ⟨hroot, hstop⟩ := (Grammar.parseComplete_eq_ok_iff hg ho).1 h
    obtain ⟨-, hle, hend, -⟩ := root_placed ho hroot
    omega
  · rw [Grammar.parseComplete_eq_trailingInput_iff hg ho hfree]
    exact and_iff_right rfl
  · intro named hnamed he config o ho hmatched hfree
    obtain ⟨root, hroot, hstart, hstop, htext⟩ := leaves_of_rooted hnamed he ho hmatched hfree
    refine ⟨root, hroot, hstart, hstop, htext, fun g name hg hconfig => ?_⟩
    subst hconfig
    refine ⟨fun hall => ?_, fun hpart => ?_⟩
    · exact (Grammar.parseComplete_eq_ok_iff hg ho).2 ⟨hroot, hstop.trans hall⟩
    · exact (Grammar.parseComplete_eq_trailingInput_iff hg ho hfree).2
        ⟨rfl, rfl, hpart, root, hroot, hstop⟩

/-- A reference to a choice of rules, of which the second one matches, over an input that it takes
and one of which it leaves a character: the hypotheses of `root_within_consumed` are satisfiable
with a root and without a node outside it. -/
theorem root_within_consumed_choice :
    let _ : Tag Unit := ⟨fun _ => ['A']⟩
    let rules : Rules Unit 1 := fun _ =>
      choice [.rule () (.pattern (.character 'b')), .rule () (.many (.pattern (.character 'a')))]
    let e : Expr Unit 1 := .sequence (.ref 0)
    let g : Grammar Unit := ⟨[(⟨['g']⟩, body rules e)]⟩
    g.get ['g'] = .ok (body rules e) ∧ (∀ i, True → (rules i).Rooted fun _ => True) ∧
      e.Rooted (fun _ => True) ∧
      (∃ o root, body rules e (.start ['a', 'a'] .standard) = some o ∧ o.Leaves root ∧
        o.state.offset = 2 ∧ root.start = 0 ∧ root.stop = 2 ∧ root.text = ['a', 'a'] ∧
        g.parseComplete ['g'] ['a', 'a'] = some (.ok root)) ∧
      ∃ o, body rules e (.start ['a', 'a', 'c'] .standard) = some o ∧ o.isMatched = true ∧
        o.state.isAborted = false ∧ o.state.offset = 2 ∧
        g.parseComplete ['g'] ['a', 'a', 'c'] = some (.error (.trailingInput ['g'] 2 3)) := by
  intro _ rules e g
  have hg : g.get ['g'] = .ok (body rules e) := rfl
  have hrules : ∀ i, True → (rules i).Rooted fun _ => True := fun _ _ => ⟨trivial, trivial, trivial⟩
  have he : e.Rooted fun _ => True := trivial
  obtain ⟨o, ho, hmatched, hfree, hoffset⟩ : ∃ o,
      body rules e (.start ['a', 'a'] .standard) = some o ∧ o.isMatched = true ∧
        o.state.isAborted = false ∧ o.state.offset = 2 := ⟨_, rfl, rfl, rfl, rfl⟩
  obtain ⟨p, hp, hpmatched, hpfree, hpoffset⟩ : ∃ o,
      body rules e (.start ['a', 'a', 'c'] .standard) = some o ∧ o.isMatched = true ∧
        o.state.isAborted = false ∧ o.state.offset = 2 := ⟨_, rfl, rfl, rfl, rfl⟩
  obtain ⟨-, -, hall⟩ := root_within_consumed rules e ['a', 'a']
  obtain ⟨root, hroot, hstart, hstop, htext, hcomplete⟩ :=
    hall _ hrules he .standard o ho hmatched hfree
  obtain ⟨-, -, hpart⟩ := root_within_consumed rules e ['a', 'a', 'c']
  obtain ⟨_, -, -, -, -, htrailing⟩ := hpart _ hrules he .standard p hp hpmatched hpfree
  have hleft : p.state.offset ≠ Text.byteLength ['a', 'a', 'c'] := by
    rw [hpoffset]
    decide
  have hanswer := (htrailing g ['g'] hg rfl).2 hleft
  rw [hpoffset] at hanswer
  exact ⟨hg, hrules, he,
    ⟨o, root, ho, hroot, hoffset, hstart, hstop.trans hoffset, htext hoffset,
      (hcomplete g ['g'] hg rfl).1 hoffset⟩,
    p, hp, hpmatched, hpfree, hpoffset, hanswer⟩

/-- A body that takes a character before its rule is answered with a tree that begins after it, and
that counts as complete; and one that takes a character after its rule, so that nothing of the
input is left, is answered with `trailingInput`.  Neither is answered with `rootCount`. -/
theorem root_leaves_text_out :
    let _ : Tag Unit := ⟨fun _ => ['A']⟩
    let rules : Rules Unit 0 := Fin.elim0
    let a : Expr Unit 0 := .rule () (.pattern (.literal ['a']))
    let late : Expr Unit 0 := chain [.pattern (.literal ['x']), a]
    let early : Expr Unit 0 := chain [a, .pattern (.literal ['b'])]
    let g : Grammar Unit := ⟨[(⟨['l']⟩, body rules late), (⟨['e']⟩, body rules early)]⟩
    (∃ o p, g.get ['l'] = .ok (body rules late) ∧
        body rules late (.start ['x', 'a'] .standard) = some o ∧ o.state.offset = 2 ∧
        g.parseWith ['l'] ['x', 'a'] .standard = some (.ok p) ∧ p.node.start = 1 ∧
        p.node.text = ['a'] ∧ p.consumed = 2 ∧ p.isComplete = true) ∧
      ∃ o, g.get ['e'] = .ok (body rules early) ∧
        body rules early (.start ['a', 'b'] .standard) = some o ∧ o.isMatched = true ∧
        o.state.isAborted = false ∧ o.state.offset = 2 ∧
        g.parseComplete ['e'] ['a', 'b'] = some (.error (.trailingInput ['e'] 1 2)) :=
  ⟨⟨_, _, rfl, rfl, rfl, rfl, rfl, rfl, rfl, rfl⟩, _, rfl, rfl, rfl, rfl, rfl, rfl⟩

end Expr

end Descent
