/-
# Parsing

A parse applies a body to an input from its start, and answers with the one node
that the body left, or with an error:

| what happened | answer |
| --- | --- |
| the parse was given up | the error for which it was |
| the body failed | `noMatch`, with the furthest failure |
| the body left no node, or several | `rootCount` |
| otherwise | the node |
-/

import Descent.Body

namespace Descent

/-- The tree of a parse. -/
structure Parsed (R : Type) where
  node : Node R
  /-- The number of bytes of the input. -/
  inputLength : Nat
  /-- The rules entered and left, when tracing. -/
  trace : Option (List (Event R))

namespace Parsed

variable {R : Type}

/-- The number of bytes that the root took. -/
def consumed (p : Parsed R) : Nat := p.node.stop

/-- The root took all of the input. -/
def isComplete (p : Parsed R) : Bool := p.consumed == p.inputLength

end Parsed

/-- A tree or an error; no answer when references nest too deeply. -/
abbrev Answer (α : Type) := Option (Except Error α)

namespace Parse

variable {R : Type} [Tag R]

/-- The error for a body that failed, under the name of the rule. -/
def noMatch (name : Text) (d : Diagnostics R) : Error :=
  let (offset, stack) := match d.furthest with
    | some furthest => (furthest.offset, furthest.stack.map Tag.name)
    | none => (0, [])
  .noMatch name offset stack (d.events?.map (·.map (Event.map Tag.name)))

/-- The answer for an outcome of the body of a rule. -/
def conclude (name : Text) (input : Text) (outcome : Outcome R) : Except Error (Parsed R) :=
  let s := outcome.state
  match s.fatal with
  | some e => .error e
  | none =>
    if outcome.isMatched then
      match s.nodes with
      | [node] => .ok ⟨node, input.byteLength, s.diagnostics.events?⟩
      | nodes => .error (.rootCount name nodes.length)
    else .error (noMatch name s.diagnostics)

/-- Parses an input with the body of a rule; the name serves for errors. -/
def run (name : Text) (body : Body R) (input : Text) (config : Config) : Answer (Parsed R) :=
  (body (.start input config)).map (conclude name input)

/-- Parses with the body that belongs to a tag. -/
def withTag (bodyOf : R → Body R) (tag : R) (input : Text) (config : Config) :
    Answer (Parsed R) :=
  run (Tag.name tag) (bodyOf tag) input config

end Parse
end Descent
