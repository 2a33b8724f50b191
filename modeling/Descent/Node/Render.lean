/-
# Printed trees

A tree is printed in one of two forms:

| function | form |
| --- | --- |
| `render` | one line for each node, the children under their parent and further to the right |
| `describe` | all on one line, with spans |

A line is the name of the rule and the text between quotes.  Which characters
of the text are shown by number is a parameter of `renderWith`.
-/

import Descent.Node

namespace Descent
namespace Node

variable {R : Type} [Tag R]

/-- The line of a node at a depth. -/
def line (hidden : Char → Bool) (depth : Nat) (n : Node R) : Text :=
  List.replicate (2 * depth) ' ' ++ Tag.name n.rule ++ ' ' :: Text.Quoted.encode hidden n.text ++
    ['\n']

/-- One line for each node, parents first. -/
def renderWith (hidden : Char → Bool) (n : Node R) : Text :=
  (n.outlineAt 0).flatMap fun (depth, m) => line hidden depth m

/-- One line for each node, parents first, with unprintable characters by number. -/
def render (n : Node R) : Text := n.renderWith Text.isUnprintable

mutual

/-- The rule, span and children of a node, on one line. -/
def describe : Node R → Text
  | ⟨rule, span, children⟩ =>
    "Node \x7b rule: ".toList ++ Tag.name rule ++ ", span: ".toList ++ span.describe ++
      ", children: [".toList ++ describeAll children ++ "] \x7d".toList

/-- The descriptions of several nodes, with commas between them. -/
def describeAll : List (Node R) → Text
  | [] => []
  | [n] => describe n
  | n :: n' :: ns => describe n ++ ", ".toList ++ describeAll (n' :: ns)

end

end Node
end Descent
