/-
# What is known about a parse under way

Besides what it has matched, a parse remembers three things, none of which has a
say in what matches:

| part | meaning |
| --- | --- |
| the stack | the rules being attempted, each with the place where it was entered |
| the log | every rule entered and left so far, kept when tracing |
| the furthest failure | the first terminal that failed at the greatest offset of all |

Rules are entered and left in the manner of brackets, so the stack is what the
log leaves open.  The stack at the furthest failure is kept only when tracing.
-/

namespace Descent

/-- A rule that is being attempted, and where it was entered. -/
structure Frame (R : Type) where
  rule : R
  start : Nat
  deriving DecidableEq, Repr

/-- A rule entered or left. -/
inductive Event (R : Type) where
  | enter (rule : R) (start : Nat)
  /-- The rule ends at `stop`, which is its start again when it did not match. -/
  | leave (rule : R) (start stop : Nat) (matched : Bool)
  deriving DecidableEq, Repr

namespace Event

/-- The same event with the rule under another name. -/
def map {R S : Type} (f : R → S) : Event R → Event S
  | enter rule start => enter (f rule) start
  | leave rule start stop matched => leave (f rule) start stop matched

end Event

/-- The greatest offset at which a terminal failed. -/
structure Furthest (R : Type) where
  offset : Nat
  /-- The rules active there, the outermost first; none unless tracing. -/
  stack : List R
  deriving DecidableEq, Repr

/-- The record of a parse under way. -/
structure Diagnostics (R : Type) where
  /-- The rules being attempted, the innermost first. -/
  active : List (Frame R)
  /-- The log, the latest event first; none unless tracing. -/
  log : Option (List (Event R))
  furthest : Option (Furthest R)
  deriving DecidableEq, Repr

namespace Diagnostics

variable {R : Type}

/-- Nothing entered and nothing failed. -/
def new (tracing : Bool) : Diagnostics R :=
  { active := [], log := if tracing then some [] else none, furthest := none }

/-- A log is kept. -/
def isTracing (d : Diagnostics R) : Bool := d.log.isSome

/-- How many rules are being attempted. -/
def depth (d : Diagnostics R) : Nat := d.active.length

/-- The rules being attempted, the outermost first. -/
def stack (d : Diagnostics R) : List (Frame R) := d.active.reverse

/-- The log, the earliest event first. -/
def events? (d : Diagnostics R) : Option (List (Event R)) := d.log.map List.reverse

/-- Adds an event to the log, if there is one. -/
def note (d : Diagnostics R) (event : Event R) : Diagnostics R :=
  { d with log := d.log.map (event :: ·) }

/-- A rule is entered. -/
def push (d : Diagnostics R) (rule : R) (start : Nat) : Diagnostics R :=
  { d with active := ⟨rule, start⟩ :: d.active }.note (.enter rule start)

/-- The innermost rule is left.  With no rule active, it counts as entered where it ends. -/
def pop (d : Diagnostics R) (rule : R) (stop : Nat) (matched : Bool) : Diagnostics R :=
  let start := match d.active with
    | frame :: _ => frame.start
    | [] => stop
  { d with active := d.active.tail }.note (.leave rule start stop matched)

/-- A terminal has failed at the offset already, or further on. -/
def hasReached (d : Diagnostics R) (offset : Nat) : Bool :=
  match d.furthest with
  | some furthest => decide (offset ≤ furthest.offset)
  | none => false

/-- A terminal failed.  Of several failures at the greatest offset the first is kept. -/
def recordFailure (d : Diagnostics R) (offset : Nat) : Diagnostics R :=
  if d.hasReached offset then d
  else { d with furthest := some ⟨offset, if d.isTracing then d.stack.map Frame.rule else []⟩ }

@[simp] theorem events?_push (d : Diagnostics R) (rule : R) (start : Nat) :
    (d.push rule start).events? = d.events?.map (· ++ [.enter rule start]) := by
  cases h : d.log <;> simp [push, note, events?, h]

@[simp] theorem events?_recordFailure (d : Diagnostics R) (offset : Nat) :
    (d.recordFailure offset).events? = d.events? := by
  unfold recordFailure
  split <;> rfl

end Diagnostics
end Descent
