/-
# Rule bodies

A body is applied to a state and matches or fails; in both cases it leaves a
state.  It may also give no outcome at all, when it refers to rules more deeply
than it was given leave to (`Expr.eval`).

| body | matches | after a failure |
| --- | --- | --- |
| `succeed`, `fail` | always, never | as it was |
| `test p` | when `p` holds of the state | as it was |
| `pattern p` | when `p` stands at the cursor | as it was, the failure noted |
| `written t` | as the pattern whose notation is `t` | as `pattern` |
| `andThen a b` | when `a` does, and then `b` | where the failing one left it |
| `orElse a b` | when `a` does, or `b` from where `a` failed | where `b` left it |
| `recover a` | always, where `a` ends | |
| `sequence a` | when `a` does | back where it began |
| `alternative a b` | when `a` does, or else `b`, from one place | where `b` left it |
| `repeated n a` | when `a` does often enough | back where it began |
| `rule tag a` | when `a` does, and adds a node | back where it began |
| `abort e` | never | as it was, but given up |

`andThen` and `orElse` keep what a failing part has taken; `sequence`, `rule` and
`repeated` put the cursor and the nodes back.
-/

import Descent.Notation.Repeat
import Descent.Pattern
import Descent.State

namespace Descent

/-- How the application of a body ends. -/
inductive Outcome (R : Type) where
  | matched (s : State R)
  | failed (s : State R)

namespace Outcome

variable {R : Type}

/-- The state in which the body ends. -/
def state : Outcome R → State R
  | matched s => s
  | failed s => s

/-- The body matched. -/
def isMatched : Outcome R → Bool
  | matched _ => true
  | failed _ => false

end Outcome

/-- What a rule consists of; no outcome when references nest too deeply. -/
abbrev Body (R : Type) := State R → Option (Outcome R)

namespace Body

variable {R : Type}

/-- Matches and takes nothing. -/
def succeed : Body R := fun s => some (.matched s)

/-- Fails, and no terminal counts as failed. -/
def fail : Body R := fun s => some (.failed s)

/-- Matches and takes nothing when a predicate holds of the state. -/
def test (p : State R → Bool) : Body R := fun s =>
  some (if p s then .matched s else .failed s)

/-- Gives the parse up. -/
def abort (e : Error) : Body R := fun s => some (.failed (s.abort e))

/-- Takes what a pattern describes. -/
def pattern (p : Pattern) : Body R := fun s =>
  if s.isAborted then some (.failed s)
  else match p.matchAt s.cursor with
    | (true, cursor) => some (.matched { s with cursor })
    | (false, cursor) => some (.failed { s with cursor }.recordFailure)

/-- Takes what a terminal describes that is given by its notation.  The notation is read
each time, and the parse is given up when it cannot be. -/
def written (notated : Text) : Body R := fun s =>
  match Notation.Terminal.read notated with
  | .ok terminal => pattern (.terminal terminal) s
  | .error cause => abort (.badNotation notated cause) s

/-- One body after another. -/
def andThen (a b : Body R) : Body R := fun s =>
  match a s with
  | some (.matched t) => b t
  | other => other

/-- One body, or another one from where the first one failed. -/
def orElse (a b : Body R) : Body R := fun s =>
  match a s with
  | some (.failed t) => b t
  | other => other

/-- Matches where the body ends, whether it matched or not. -/
def recover (a : Body R) : Body R := fun s => (a s).map fun o => .matched o.state

/-- One body as a unit: a failure puts the cursor and the nodes back. -/
def sequence (a : Body R) : Body R := fun s =>
  match a s with
  | some (.failed t) => some (.failed (t.rollback s.cursor s.found.length))
  | other => other

/-- One body as a unit, or else another one; neither is tried once the parse is given up. -/
def alternative (a b : Body R) : Body R := fun s =>
  if s.isAborted then some (.failed s) else orElse (sequence a) b s

/-- The number of occurrences is the greatest allowed. -/
def isFull (bounds : Notation.Repeat) (count : Nat) : Bool :=
  match bounds.max with
  | some max => max.toNat ≤ count
  | none => false

/-- After this many occurrences of a body without a greatest number, an empty one is the last. -/
def mayStop (bounds : Notation.Repeat) (count : Nat) : Bool :=
  bounds.max.isNone && bounds.min.toNat ≤ count

/-- Occurrences of a body, one at a time, until one fails, there are enough, or the parse is
given up; with how many there were.  None when more than `attempts` are needed. -/
def occurrences (bounds : Notation.Repeat) (a : Body R) :
    (attempts count : Nat) → State R → Option (Nat × State R)
  | attempts, count, s =>
    if isFull bounds count || s.isAborted then some (count, s)
    else match attempts with
      | 0 => none
      | attempts + 1 =>
        match sequence a s with
        | none => none
        | some (.failed t) => some (count, t)
        | some (.matched t) =>
          if mayStop bounds (count + 1) && t.offset == s.offset then some (count + 1, t)
          else occurrences bounds a attempts (count + 1) t

/-- How many attempts a repetition can need with this text left.  Without a greatest number,
every occurrence but the last takes a byte once there are enough. -/
def attempts (bounds : Notation.Repeat) (rest : Text) : Nat :=
  match bounds.max with
  | some max => max.toNat
  | none => max bounds.min.toNat 1 + rest.byteLength

/-- As many occurrences of a body as there are, within bounds.  Too few of them are a failure,
which puts the cursor and the nodes back; bounds out of order give the parse up. -/
def repeated (bounds : Notation.Repeat) (a : Body R) : Body R := fun s =>
  match bounds.validate with
  | .error cause => abort (.badNotation bounds.render cause) s
  | .ok () =>
    (occurrences bounds a (attempts bounds s.rest) 0 s).map fun (count, t) =>
      if bounds.min.toNat ≤ count && !t.isAborted then .matched t
      else .failed (t.rollback s.cursor s.found.length)

/-- A body under the name of a rule.  When it matches, one node takes the place of those it
found; when it fails, or the parse is given up, the cursor and the nodes are put back.  A
rule that would be one too many at once gives the parse up. -/
def rule (tag : R) (a : Body R) : Body R := fun s =>
  if s.isAborted then some (.failed s)
  else if s.maxDepth ≤ s.diagnostics.depth then
    abort (.recursionLimit s.maxDepth s.offset) s
  else match a (s.enter tag) with
    | none => none
    | some (.failed t) => some (.failed (t.leaveFailed tag s.cursor s.found))
    | some (.matched t) =>
      if t.isAborted then some (.failed (t.leaveFailed tag s.cursor s.found))
      else some (.matched (t.leaveMatched tag s.cursor s.found))

end Body
end Descent
