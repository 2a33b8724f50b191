/-
# Nodes

A rule that matches leaves a node: the rule, the stretch of input that it took,
and the nodes of the rules that matched inside it, in the order of the input.
Nodes are compared by rule, text and children, wherever they stand.
-/

import Descent.Span

namespace Descent

/-- The names of the tags that tell the rules of a grammar apart. -/
class Tag (R : Type) where
  name : R → Text

/-- What a rule that matched leaves behind. -/
structure Node (R : Type) where
  rule : R
  span : Span
  children : List (Node R)

namespace Node

variable {R : Type}

/-- The text that the rule took. -/
def text (n : Node R) : Text := n.span.text

/-- Where the rule began. -/
def start (n : Node R) : Nat := n.span.start

/-- Where the rule ended. -/
def stop (n : Node R) : Nat := n.span.stop

/-- The first child that the rule left. -/
def child? [DecidableEq R] (n : Node R) (rule : R) : Option (Node R) :=
  n.children.find? (·.rule = rule)

/-- The children that the rule left. -/
def childrenOf [DecidableEq R] (n : Node R) (rule : R) : List (Node R) :=
  n.children.filter (·.rule = rule)

mutual

/-- The nodes agree in rule, text and children. -/
def same [DecidableEq R] : Node R → Node R → Bool
  | ⟨rule, span, children⟩, ⟨rule', span', children'⟩ =>
    decide (rule = rule') && span.sameText span' && sameAll children children'

/-- The nodes agree one by one. -/
def sameAll [DecidableEq R] : List (Node R) → List (Node R) → Bool
  | [], [] => true
  | n :: ns, n' :: ns' => same n n' && sameAll ns ns'
  | _, _ => false

end

mutual

/-- A node and all below it, parents first, each with its depth. -/
def outlineAt (depth : Nat) : Node R → List (Nat × Node R)
  | ⟨rule, span, children⟩ => (depth, ⟨rule, span, children⟩) :: outlineAllAt (depth + 1) children

/-- The outlines of several nodes one after another. -/
def outlineAllAt (depth : Nat) : List (Node R) → List (Nat × Node R)
  | [] => []
  | n :: ns => outlineAt depth n ++ outlineAllAt depth ns

end

mutual

/-- A node and all below it, parents first. -/
def preorder : Node R → List (Node R)
  | ⟨rule, span, children⟩ => ⟨rule, span, children⟩ :: preorderAll children

/-- All nodes of several trees, one tree after another. -/
def preorderAll : List (Node R) → List (Node R)
  | [] => []
  | n :: ns => preorder n ++ preorderAll ns

end

mutual

/-- The number of nodes of a tree. -/
def size : Node R → Nat
  | ⟨_, _, children⟩ => sizeAll children + 1

/-- The number of nodes of several trees. -/
def sizeAll : List (Node R) → Nat
  | [] => 0
  | n :: ns => size n + sizeAll ns

end

theorem preorder_eq (n : Node R) : n.preorder = n :: preorderAll n.children := by
  cases n; rw [preorder]

theorem size_eq (n : Node R) : n.size = sizeAll n.children + 1 := by
  cases n; rw [size]

theorem preorderAll_append (a b : List (Node R)) :
    preorderAll (a ++ b) = preorderAll a ++ preorderAll b := by
  induction a with
  | nil => simp [preorderAll]
  | cons n a ih => simp [preorderAll, ih]

theorem sizeAll_append (a b : List (Node R)) : sizeAll (a ++ b) = sizeAll a + sizeAll b := by
  induction a with
  | nil => simp [sizeAll]
  | cons n a ih => simp [sizeAll, ih, Nat.add_assoc]

end Node
end Descent
