/-
# The state of a parse

A state is a cursor, the nodes that the innermost rule has found so far, the
record of the parse, and the error for which it was given up, if it was.  Such an
error is fatal: the first one is kept, and from then on nothing is matched.

Rules are entered and left:

| step | cursor | nodes |
| --- | --- | --- |
| `enter` | stays | set aside, so that the rule starts with none |
| `leaveMatched` | stays | those set aside, and one node for the rule |
| `leaveFailed` | goes back to where the rule was entered | those set aside |
-/

import Descent.Config
import Descent.Cursor
import Descent.Node

namespace Descent

/-- The state of a parse. -/
structure State (R : Type) where
  cursor : Cursor
  /-- The nodes that the innermost rule has found, the latest first. -/
  found : List (Node R)
  /-- How many rules may be active at once. -/
  maxDepth : Nat
  diagnostics : Diagnostics R
  /-- The error for which the parse was given up. -/
  fatal : Option Error

namespace State

variable {R : Type}

/-- The state in which a parse starts at a cursor. -/
def ofCursor (cursor : Cursor) (config : Config) : State R :=
  { cursor, found := [], maxDepth := config.maxDepth,
    diagnostics := .new config.trace, fatal := none }

/-- The state in which a parse of the whole input starts. -/
def start (input : Text) (config : Config) : State R := ofCursor (.start input) config

/-- The state in which a parse starts after a number of bytes. -/
def startingAt (input : Text) (offset : Nat) (config : Config) : Except Error (State R) :=
  (Cursor.startingAt input offset).map (ofCursor · config)

/-- The place of the cursor. -/
def offset (s : State R) : Nat := s.cursor.offset

/-- What is left of the input. -/
def rest (s : State R) : Text := s.cursor.rest

/-- The nodes that the innermost rule has found, in the order of the input. -/
def nodes (s : State R) : List (Node R) := s.found.reverse

/-- The parse was given up. -/
def isAborted (s : State R) : Bool := s.fatal.isSome

/-- Gives the parse up, unless it was given up before. -/
def abort (s : State R) (e : Error) : State R := { s with fatal := s.fatal <|> some e }

/-- Goes back to an earlier cursor, and drops all nodes after the first `count`. -/
def rollback (s : State R) (mark : Cursor) (count : Nat) : State R :=
  { s with cursor := mark, found := s.found.drop (s.found.length - count) }

/-- Sets the nodes aside and makes the rule the innermost one. -/
def enter (s : State R) (rule : R) : State R :=
  { s with found := [], diagnostics := s.diagnostics.push rule s.offset }

/-- Leaves a rule that took all from `start` to the cursor, with its node after `siblings`. -/
def leaveMatched (s : State R) (rule : R) (start : Cursor) (siblings : List (Node R)) : State R :=
  { s with
    found := ⟨rule, ⟨s.cursor.input, start.offset, s.offset⟩, s.nodes⟩ :: siblings
    diagnostics := s.diagnostics.pop rule s.offset true }

/-- Leaves a rule that did not match, back at `start`. -/
def leaveFailed (s : State R) (rule : R) (start : Cursor) (siblings : List (Node R)) : State R :=
  { s with
    cursor := start
    found := siblings
    diagnostics := s.diagnostics.pop rule start.offset false }

/-- Notes that a terminal failed at the cursor. -/
def recordFailure (s : State R) : State R :=
  { s with diagnostics := s.diagnostics.recordFailure s.offset }

/-- The first error stays. -/
theorem abort_of_isAborted {s : State R} (h : s.isAborted) (e : Error) : s.abort e = s := by
  obtain ⟨c, ns, m, d, f⟩ := s
  cases f with
  | none => simp [isAborted] at h
  | some f => rfl

/-- After giving up, the parse is given up. -/
@[simp] theorem isAborted_abort (s : State R) (e : Error) : (s.abort e).isAborted := by
  simp only [abort, isAborted]
  cases s.fatal <;> rfl

/-- A parse that is not given up has no error. -/
theorem fatal_eq_none {s : State R} (h : s.isAborted = false) : s.fatal = none :=
  Option.not_isSome_iff_eq_none.1 (Bool.eq_false_iff.1 h)

/-- Giving up a parse that was not given up sets the error, and nothing else. -/
theorem abort_of_free {s : State R} (h : s.isAborted = false) (e : Error) :
    s.abort e = { s with fatal := some e } := by
  rw [abort, fatal_eq_none h]
  rfl

end State
end Descent
