/-
# Visiting nodes

A visitor holds one method for each rule, and a node is handed to the method of
its rule.  Two visitors are given here: one lists the methods that a walk through
the whole tree calls, the other adds up the numbers of a tree.

| share of a rule | its nodes in a sum |
| --- | --- |
| `number` | the number that the text spells |
| `sum` | the sum of the children, from the left |
| `stray` | none: such a node does not belong there |
-/

import Descent.Node.Walk
import Descent.Text.Numeral

namespace Descent

/-- One method for each rule. -/
abbrev Visitor (R α : Type) := R → Node R → α

namespace Node

variable {R : Type}

/-- Hands the node to the method of its rule. -/
def accept {α : Type} (n : Node R) (visitor : Visitor R α) : α := visitor n.rule n

/-- What the methods answer on a walk through the tree, parents first. -/
def visited {α : Type} (n : Node R) (visitor : Visitor R α) : List α :=
  (Walk.start n).toList.map fun m => m.accept visitor

/-- The methods that a walk calls, by their names, and the text of each node. -/
def calls (method : R → Text) (n : Node R) : List (Text × Text) :=
  n.visited fun rule m => (method rule, m.text)

/-- What the nodes of a rule contribute to a sum. -/
inductive Share where
  /-- The number that the text spells. -/
  | number
  /-- The sum of the children. -/
  | sum
  /-- Nothing: there is no such node in a sum. -/
  | stray
  deriving DecidableEq

/-- Why a tree has no sum. -/
inductive SumError where
  | unreadable (cause : Text.Numeral.WordError)
  | stray (text : Text)
  | overflow

/-- The wording of the error. -/
def SumError.message : SumError → String
  | unreadable cause => cause.message
  | stray text => s!"digit visited: {String.ofList text}"
  | overflow => "overflow"

/-- The sum of two numbers of 64 bits. -/
def addWords (a b : UInt64) : Except SumError UInt64 :=
  if a.toNat + b.toNat < UInt64.size then .ok (a + b) else .error .overflow

mutual

/-- The sum of the numbers of a tree. -/
def sum (share : R → Share) : Node R → Except SumError UInt64
  | ⟨rule, span, children⟩ =>
    match share rule with
    | .number => (Text.Numeral.readWord span.text).mapError .unreadable
    | .stray => .error (.stray span.text)
    | .sum => sumOnto share 0 children

/-- A number and the sums of several trees, added from the left. -/
def sumOnto (share : R → Share) (total : UInt64) : List (Node R) → Except SumError UInt64
  | [] => .ok total
  | n :: ns => do
    let value ← sum share n
    let total ← addWords total value
    sumOnto share total ns

end

end Node
end Descent
