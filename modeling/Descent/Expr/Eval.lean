/-
# The meaning of expressions

An expression denotes a body once the rules that it refers to have bodies
(`denote`).  These come from the table: with references nested no deeper than
`k`, a rule of level `k + 1` is its expression over the rules of level `k`, and a
rule of level 0 gives no outcome.

| function | references may nest |
| --- | --- |
| `eval rules k e` | `k` deep |
| `body rules e` | as deep as `nesting` allows from the state at hand |

What a body does next is settled by the place of the cursor, the rules that are
active, the number of nodes found, and whether the parse was given up; and of
the number of nodes only as far as the expressions ask about it.  Along a nest
of references none of these goes back, but for the nodes, of which a rule that
is entered has none.  So `nesting` counts how often they can change, and as many
references as there are rules fit between two changes: one more would lead from
a body to itself in the same situation, and the nest would have no end.
-/

import Descent.Expr

namespace Descent
namespace Expr

variable {R : Type} [DecidableEq R] {n : Nat}

/-- The body that an expression stands for when rule `i` has the body `env i`. -/
def denote (env : Fin n → Body R) : Expr R n → Body R
  | succeed => Body.succeed
  | fail => Body.fail
  | test p => Body.test (Probe.holds · p)
  | abort e => Body.abort e
  | pattern p => Body.pattern p
  | written notated => Body.written notated
  | andThen a b => Body.andThen (denote env a) (denote env b)
  | orElse a b => Body.orElse (denote env a) (denote env b)
  | recover a => Body.recover (denote env a)
  | sequence a => Body.sequence (denote env a)
  | alternative a b => Body.alternative (denote env a) (denote env b)
  | repeated bounds a => Body.repeated bounds (denote env a)
  | rule tag a => Body.rule tag (denote env a)
  | ref i => env i

/-- The bodies of the rules when references may nest `k` deep. -/
def unfold (rules : Rules R n) : (k : Nat) → Fin n → Body R
  | 0, _ => fun _ => none
  | k + 1, i => fun s => denote (unfold rules k) (rules i) s

/-- Applies an expression to a state when references may nest `k` deep. -/
def eval (rules : Rules R n) (k : Nat) (e : Expr R n) : Body R := denote (unfold rules k) e

/-- How deep references need to nest from a state on, for an expression that has an outcome
at any depth. -/
def nesting (rules : Rules R n) (e : Expr R n) (s : State R) : Nat :=
  let counts := max rules.mostNodes e.mostNodes + 2
  n * ((s.maxDepth + 1) * counts + s.rest.byteLength + 1)

/-- The body that an expression over a table stands for. -/
def body (rules : Rules R n) (e : Expr R n) : Body R := fun s => eval rules (nesting rules e s) e s

/-- The outcomes of expressions that are applied one after another, each to the state that the
one before it left, whether it matched or not. -/
def trail (rules : Rules R n) : List (Expr R n) → State R → Option (List (Outcome R))
  | [], _ => some []
  | e :: es, s => do
    let outcome ← body rules e s
    let outcomes ← trail rules es outcome.state
    return outcome :: outcomes

end Expr
end Descent
