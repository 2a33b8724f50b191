/-
# Walking through a tree

A walk keeps the nodes that it has still to visit on a stack.  A step takes the
node on top and puts its children in its place, so that they come next and in
order.  `toList` is what all steps together give.
-/

import Descent.Node

namespace Descent
namespace Node

/-- A walk under way: the nodes to visit, the next one first. -/
structure Walk (R : Type) where
  pending : List (Node R)

namespace Walk

variable {R : Type}

/-- The walk that starts at a node. -/
def start (n : Node R) : Walk R := ⟨[n]⟩

/-- The next node, and the walk after it. -/
def next? (w : Walk R) : Option (Node R × Walk R) :=
  match w.pending with
  | [] => none
  | n :: pending => some (n, ⟨n.children ++ pending⟩)

/-- The number of nodes still to come. -/
def remaining (w : Walk R) : Nat := sizeAll w.pending

/-- A step leaves one node less. -/
theorem remaining_next? {w w' : Walk R} {n : Node R} (h : w.next? = some (n, w')) :
    w.remaining = w'.remaining + 1 := by
  obtain ⟨pending⟩ := w
  cases pending with
  | nil => simp [next?] at h
  | cons m pending =>
    obtain ⟨rfl, rfl⟩ := Prod.mk.inj (Option.some.inj h)
    simp only [remaining, sizeAll, sizeAll_append, size_eq]
    omega

/-- The nodes that the steps give, until there is none. -/
def toList (w : Walk R) : List (Node R) :=
  match _h : w.next? with
  | none => []
  | some (n, w') => n :: w'.toList
termination_by w.remaining
decreasing_by
  have := remaining_next? _h
  omega

end Walk
end Node
end Descent
