/-
# Expressions

Rule bodies as data.  An expression is built over a table of `n` rules, to which
it refers by number, so a reference always leads to a body.  Chains, choices and
the common repetitions are made from the operators of two operands.
-/

import Descent.Body

namespace Descent

/-- A question about the state that a body may ask. -/
inductive Probe (R : Type) where
  /-- So many rules are active. -/
  | depthIs (n : Nat)
  /-- The innermost rule has found so many nodes. -/
  | nodesAre (n : Nat)
  /-- The rule active at this place, counted from the outermost, was entered there. -/
  | frameIs (index : Nat) (tag : R) (start : Nat)
  /-- The parse was given up. -/
  | aborted

namespace Probe

/-- The answer to the question. -/
def holds {R : Type} [DecidableEq R] (s : State R) : Probe R → Bool
  | depthIs n => s.diagnostics.depth == n
  | nodesAre n => s.found.length == n
  | frameIs index tag start => s.diagnostics.stack[index]? == some ⟨tag, start⟩
  | aborted => s.isAborted

end Probe

/-- A rule body over a table of `n` rules. -/
inductive Expr (R : Type) (n : Nat) where
  | succeed
  | fail
  | test (p : Probe R)
  | abort (e : Error)
  | pattern (p : Pattern)
  | written (notated : Text)
  | andThen (a b : Expr R n)
  | orElse (a b : Expr R n)
  | recover (a : Expr R n)
  | sequence (a : Expr R n)
  | alternative (a b : Expr R n)
  | repeated (bounds : Notation.Repeat) (a : Expr R n)
  | rule (tag : R) (a : Expr R n)
  /-- The body of a rule of the table. -/
  | ref (i : Fin n)

/-- The bodies of `n` rules. -/
abbrev Rules (R : Type) (n : Nat) := Fin n → Expr R n

namespace Expr

variable {R : Type} {n : Nat}

/-- Expressions one after another; a failure keeps what those before it took. -/
def chain (es : List (Expr R n)) : Expr R n := es.foldr andThen succeed

/-- The first expression that matches, each from where the one before it failed. -/
def firstOf (es : List (Expr R n)) : Expr R n := es.foldr orElse fail

/-- The first expression that matches, all from the same place. -/
def choice (es : List (Expr R n)) : Expr R n := es.foldr alternative fail

/-- Any number of occurrences. -/
def many (a : Expr R n) : Expr R n := repeated .any a

/-- One occurrence or none. -/
def optional (a : Expr R n) : Expr R n := repeated .optional a

/-- The greatest number of nodes that the expression asks about. -/
def mostNodes : Expr R n → Nat
  | succeed | fail | abort _ | pattern _ | written _ | ref _ => 0
  | test (.nodesAre k) => k
  | test _ => 0
  | andThen a b | orElse a b | alternative a b => max a.mostNodes b.mostNodes
  | recover a | sequence a | repeated _ a | rule _ a => a.mostNodes

end Expr

/-- The greatest number of nodes that a rule of the table asks about. -/
def Rules.mostNodes {R : Type} {n : Nat} (rules : Rules R n) : Nat :=
  (List.finRange n).foldr (fun i most => max (rules i).mostNodes most) 0

end Descent
