/-
# A failed primitive leaves no trace

A body may be a bare chain, which keeps what its first parts took when a later one
fails.  The primitives do not: when one of them fails, the cursor, the nodes and the
active rules are those of the state that it was given (`failed_primitive_restores`),
whatever its parts are and however far they got.

Two mechanisms are at work.  `sequence`, `choice` and `repeated` cut the nodes at the
length they had, which is exact because a body only adds to them
(`State.Extends.rollback_eq`).  `rule` has set the older nodes aside and takes them
up again.
-/

import Descent.Proofs.Extension

namespace Descent

variable {R : Type}

namespace Body

/-- A failure leaves the cursor and the nodes as they were. -/
def Restoring (a : Body R) : Prop :=
  ∀ ⦃s t⦄, a s = some (.failed t) → t.cursor = s.cursor ∧ t.found = s.found

variable {a b : Body R}

theorem restoring_fail : Restoring (fail : Body R) := by
  intro s t h
  obtain rfl := Outcome.failed.inj (Option.some.inj h)
  exact ⟨rfl, rfl⟩

theorem restoring_abort (e : Error) : Restoring (abort e : Body R) := by
  intro s t h
  obtain rfl := Outcome.failed.inj (Option.some.inj h)
  exact ⟨rfl, rfl⟩

theorem restoring_pattern (p : Pattern) : Restoring (pattern p : Body R) := by
  intro s t h
  rcases pattern_eq_some h with ⟨-, ho⟩ | ⟨-, cursor, -, ho⟩ | ⟨-, -, ho⟩
  · obtain rfl := Outcome.failed.inj ho
    exact ⟨rfl, rfl⟩
  · cases ho
  · obtain rfl := Outcome.failed.inj ho
    exact ⟨rfl, rfl⟩

theorem restoring_written (notated : Text) : Restoring (written notated : Body R) := by
  cases h : Notation.Terminal.read notated with
  | ok terminal =>
    rw [written_of_read h]
    exact restoring_pattern _
  | error cause =>
    rw [written_of_error h]
    exact restoring_abort _

theorem restoring_sequence (ha : Extending a) : Restoring (sequence a) := by
  intro s t h
  rcases sequence_eq_some h with ⟨u, -, ho⟩ | ⟨u, hu, ho⟩
  · cases ho
  · obtain rfl := Outcome.failed.inj ho
    have hext : s.Extends u := ha hu
    rw [hext.rollback_eq]
    exact ⟨rfl, rfl⟩

/-- Where the first part fails without a trace, the second one starts from the same place. -/
theorem restoring_orElse (ha : Restoring a) (hb : Restoring b) : Restoring (orElse a b) := by
  intro s t h
  rcases orElse_eq_some h with ⟨u, hu, hbu⟩ | ⟨u, -, ho⟩
  · obtain ⟨hcursor, hfound⟩ := ha hu
    obtain ⟨hcursor', hfound'⟩ := hb hbu
    exact ⟨hcursor'.trans hcursor, hfound'.trans hfound⟩
  · cases ho

theorem restoring_alternative (ha : Extending a) (hb : Restoring b) :
    Restoring (alternative a b) := by
  intro s t h
  rcases alternative_eq_some h with ⟨-, ho⟩ | ⟨-, h⟩
  · obtain rfl := Outcome.failed.inj ho
    exact ⟨rfl, rfl⟩
  · exact restoring_orElse (restoring_sequence ha) hb h

theorem restoring_repeated (bounds : Notation.Repeat) (ha : Extending a) :
    Restoring (repeated bounds a) := by
  intro s t h
  rcases repeated_eq_some h with ⟨cause, -, ho⟩ | ⟨-, count, u, hu, ⟨-, -, ho⟩ | ⟨-, ho⟩⟩
  · obtain rfl := Outcome.failed.inj ho
    exact ⟨rfl, rfl⟩
  · cases ho
  · obtain rfl := Outcome.failed.inj ho
    rw [(hu.extends ha).rollback_eq]
    exact ⟨rfl, rfl⟩

theorem restoring_rule (tag : R) (a : Body R) : Restoring (rule tag a) := by
  intro s t h
  rcases rule_eq_some h with ⟨-, ho⟩ | ⟨-, -, ho⟩ | ⟨-, -, p, -, ⟨-, -, ho⟩ | ⟨-, ho⟩⟩
  · obtain rfl := Outcome.failed.inj ho
    exact ⟨rfl, rfl⟩
  · obtain rfl := Outcome.failed.inj ho
    exact ⟨rfl, rfl⟩
  · cases ho
  · obtain rfl := Outcome.failed.inj ho
    exact ⟨rfl, rfl⟩

end Body

namespace Expr

variable {n : Nat}

/-- One primitive, over parts of any kind.  Not among them are the operators that glue parts
together without a unit of their own: `andThen`, `orElse`, `recover`. -/
inductive Primitive : Expr R n → Prop where
  | abort (e : Error) : Primitive (.abort e)
  | pattern (p : Pattern) : Primitive (.pattern p)
  | written (notated : Text) : Primitive (.written notated)
  | sequence (a : Expr R n) : Primitive (.sequence a)
  | choice (es : List (Expr R n)) : Primitive (choice es)
  | repeated (bounds : Notation.Repeat) (a : Expr R n) : Primitive (.repeated bounds a)
  | many (a : Expr R n) : Primitive (many a)
  | optional (a : Expr R n) : Primitive (optional a)
  | rule (tag : R) (a : Expr R n) : Primitive (.rule tag a)

variable [DecidableEq R] (rules : Rules R n) (k : Nat)

theorem restoring_choice (es : List (Expr R n)) : Body.Restoring (eval rules k (choice es)) := by
  induction es with
  | nil => exact Body.restoring_fail
  | cons e es ih => exact Body.restoring_alternative (eval_extends rules k e) ih

theorem Primitive.restoring {e : Expr R n} (he : e.Primitive) : Body.Restoring (eval rules k e) := by
  cases he with
  | abort e => exact Body.restoring_abort e
  | pattern p => exact Body.restoring_pattern p
  | written notated => exact Body.restoring_written notated
  | sequence a => exact Body.restoring_sequence (eval_extends rules k a)
  | choice es => exact restoring_choice rules k es
  | repeated bounds a => exact Body.restoring_repeated bounds (eval_extends rules k a)
  | many a => exact Body.restoring_repeated .any (eval_extends rules k a)
  | optional a => exact Body.restoring_repeated .optional (eval_extends rules k a)
  | rule tag a => exact Body.restoring_rule tag (eval rules k a)

/-- **Rollback is exact.**  A primitive that fails, on any state and with any parts, leaves the
cursor where it was, the same nodes in the same order, and the same stack of active rules. -/
theorem failed_primitive_restores {e : Expr R n} (he : e.Primitive) {s t : State R}
    (h : eval rules k e s = some (.failed t)) :
    t.cursor = s.cursor ∧ t.nodes = s.nodes ∧ t.diagnostics.stack = s.diagnostics.stack := by
  obtain ⟨hcursor, hfound⟩ := he.restoring rules k h
  have hnodes : t.nodes = s.nodes := by
    unfold State.nodes
    rw [hfound]
  exact ⟨hcursor, hnodes, (eval_extends rules k e h).stack_eq⟩

/-- A chain that matched a rule and then failed, after a node that is older than the sequence:
the hypotheses of `failed_primitive_restores` are satisfiable where there is much to undo. -/
theorem failed_primitive_restores_chain :
    let older : State Unit :=
      { cursor := ⟨['a', 'a', 'c'], 1, ['a', 'c']⟩
        found := [⟨(), ⟨['a', 'a', 'c'], 0, 1⟩, []⟩]
        maxDepth := 9, diagnostics := .new true, fatal := none }
    let e : Expr Unit 0 :=
      .sequence (chain [.rule () (.pattern (.character 'a')), .pattern (.character 'b')])
    e.Primitive ∧ ∃ t, eval Fin.elim0 0 e older = some (.failed t) ∧
      t.diagnostics.log.map List.length = some 2 ∧
      t.cursor = older.cursor ∧ t.nodes = older.nodes ∧
      t.diagnostics.stack = older.diagnostics.stack := by
  intro older e
  have he : e.Primitive := .sequence _
  obtain ⟨t, ht, hlog⟩ : ∃ t, eval Fin.elim0 0 e older = some (.failed t) ∧
      t.diagnostics.log.map List.length = some 2 := ⟨_, rfl, rfl⟩
  exact ⟨he, t, ht, hlog, failed_primitive_restores Fin.elim0 0 he ht⟩

end Expr
end Descent
