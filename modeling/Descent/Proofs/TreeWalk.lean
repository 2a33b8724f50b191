/-
# The order of a walk

A walk through a tree gives the root, and then what the walks through its children give, one child
after another.  Three things are shown of it:

| statement | says |
| --- | --- |
| `Walk.gives_iff` | the steps end, and give the nodes parents first |
| `map_at?_paths`, `paths_sorted`, `mem_paths` | each place of the tree is visited once, in order |
| `eq_of_map_entry_eq` | the nodes and the numbers of their children determine the tree |

The steps work on a stack of trees that are still to be visited, and one step puts the children of
the tree on top in its place.  So what is shown of a stack is shown by `stack_induction`, one tree
taken apart at a time; the measure is the number of nodes on the stack.

A place in a tree is a path, the numbers of the children to go down to.  Paths are compared as
words in a dictionary: one comes before those that go on from it, and one through an earlier child
before those through a later one.
-/

import Descent.Node.Walk
import Mathlib.Data.List.Basic
import Mathlib.Data.List.Lex

namespace Descent
namespace Node

variable {R : Type}

/-! ## Places in a tree -/

/-- The node to which a path leads. -/
def at? : Node R → List Nat → Option (Node R)
  | n, [] => some n
  | n, i :: path => n.children[i]?.bind fun child => child.at? path

mutual

/-- The paths in a tree, in order. -/
def paths : Node R → List (List Nat)
  | ⟨_, _, children⟩ => [] :: pathsFrom 0 children

/-- The paths in several trees one after another, the first of which is child number `i`. -/
def pathsFrom (i : Nat) : List (Node R) → List (List Nat)
  | [] => []
  | n :: ns => (paths n).map (i :: ·) ++ pathsFrom (i + 1) ns

end

theorem exists_of_mem_pathsFrom {i : Nat} {ns : List (Node R)} {path : List Nat}
    (h : path ∈ pathsFrom i ns) : ∃ j rest, i ≤ j ∧ path = j :: rest := by
  induction ns generalizing i with
  | nil => cases h
  | cons n ns ih =>
    rw [pathsFrom, List.mem_append, List.mem_map] at h
    rcases h with ⟨rest, -, rfl⟩ | h
    · exact ⟨i, rest, Nat.le_refl i, rfl⟩
    · obtain ⟨j, rest, hj, rfl⟩ := ih h
      exact ⟨j, rest, by omega, rfl⟩

mutual

/-- **The paths are in order,** and so none occurs twice. -/
theorem paths_sorted : (n : Node R) → n.paths.Pairwise (· < ·)
  | ⟨_, _, children⟩ => by
    rw [paths, List.pairwise_cons]
    refine ⟨fun path h => ?_, pathsFrom_sorted 0 children⟩
    obtain ⟨j, rest, -, rfl⟩ := exists_of_mem_pathsFrom h
    exact .nil

theorem pathsFrom_sorted (i : Nat) : (ns : List (Node R)) → (pathsFrom i ns).Pairwise (· < ·)
  | [] => .nil
  | n :: ns => by
    rw [pathsFrom, List.pairwise_append, List.pairwise_map]
    refine ⟨(paths_sorted n).imp fun h => .cons h, pathsFrom_sorted (i + 1) ns, ?_⟩
    intro path hpath later hlater
    obtain ⟨rest, -, rfl⟩ := List.mem_map.1 hpath
    obtain ⟨j, rest', hj, rfl⟩ := exists_of_mem_pathsFrom hlater
    exact .rel hj

end

/-- A node with two children, the first of which has a child. -/
example :
    let leaf : Node Nat := ⟨2, ⟨['a'], 0, 1⟩, []⟩
    (Node.mk 0 ⟨['a'], 0, 1⟩ [⟨1, ⟨['a'], 0, 1⟩, [leaf]⟩, leaf]).paths = [[], [0], [0, 0], [1]] := by
  rfl

mutual

/-- **A path is in the list when it leads to a node.** -/
theorem mem_paths : (n : Node R) → {path : List Nat} →
    path ∈ n.paths ↔ ∃ m, n.at? path = some m
  | ⟨rule, span, children⟩, path => by
    rw [paths, List.mem_cons, mem_pathsFrom 0 children]
    cases path with
    | nil => simp [at?]
    | cons i rest =>
      simp only [reduceCtorEq, false_or, Nat.zero_add, List.cons.injEq, at?,
        Option.bind_eq_some_iff]
      constructor
      · rintro ⟨_, _, n, m, ⟨rfl, rfl⟩, hn, hm⟩
        exact ⟨m, n, hn, hm⟩
      · rintro ⟨m, n, hn, hm⟩
        exact ⟨i, rest, n, m, ⟨rfl, rfl⟩, hn, hm⟩

theorem mem_pathsFrom (i : Nat) : (ns : List (Node R)) → {path : List Nat} →
    path ∈ pathsFrom i ns ↔
      ∃ j rest n m, path = (i + j) :: rest ∧ ns[j]? = some n ∧ n.at? rest = some m
  | [], path => by simp [pathsFrom]
  | n :: ns, path => by
    rw [pathsFrom, List.mem_append, List.mem_map, mem_pathsFrom (i + 1) ns]
    simp only [mem_paths n]
    constructor
    · rintro (⟨rest, ⟨m, hm⟩, rfl⟩ | ⟨j, rest, n', m, rfl, hn', hm⟩)
      · exact ⟨0, rest, n, m, rfl, rfl, hm⟩
      · exact ⟨j + 1, rest, n', m, by rw [Nat.add_assoc, Nat.add_comm 1 j], hn', hm⟩
    · rintro ⟨j, rest, n', m, rfl, hn', hm⟩
      cases j with
      | zero =>
        obtain rfl : n = n' := Option.some.inj hn'
        exact .inl ⟨rest, ⟨m, hm⟩, rfl⟩
      | succ j =>
        exact .inr ⟨j, rest, n', m, by rw [Nat.add_assoc, Nat.add_comm 1 j], hn', hm⟩

end

mutual

/-- **The outline follows the paths:** the depth of a node is the length of its path. -/
theorem outlineAt_eq (depth : Nat) : (n : Node R) →
    (n.outlineAt depth).map (fun entry => (entry.1, some entry.2)) =
      n.paths.map fun path => (depth + path.length, n.at? path)
  | ⟨rule, span, children⟩ => by
    rw [outlineAt, paths, List.map_cons, List.map_cons,
      outlineAllAt_eq (depth + 1) 0 (at? ⟨rule, span, children⟩) children
        fun j path => by rw [Nat.zero_add]; rfl]
    refine congrArg _ (List.map_congr_left fun path hpath => ?_)
    obtain ⟨j, rest, -, rfl⟩ := exists_of_mem_pathsFrom hpath
    rw [List.tail_cons, List.length_cons, Nat.add_assoc, Nat.add_comm 1]

theorem outlineAllAt_eq (depth i : Nat) (found : List Nat → Option (Node R)) :
    (ns : List (Node R)) →
    (∀ j path, found ((i + j) :: path) = ns[j]?.bind fun n => n.at? path) →
    (outlineAllAt depth ns).map (fun entry => (entry.1, some entry.2)) =
      (pathsFrom i ns).map fun path => (depth + path.tail.length, found path)
  | [], _ => by rw [outlineAllAt, pathsFrom]; rfl
  | n :: ns, h => by
    have hlater := outlineAllAt_eq depth (i + 1) found ns fun j path => by
      rw [Nat.add_assoc, Nat.add_comm 1 j, h (j + 1) path]
      rfl
    rw [outlineAllAt, pathsFrom, List.map_append, List.map_append, hlater, outlineAt_eq depth n,
      List.map_map]
    refine congrArg (· ++ _) (List.map_congr_left fun path _ => ?_)
    show _ = (depth + path.length, found (i :: path))
    rw [← Nat.add_zero i, h 0 path]
    rfl

end

mutual

/-- The nodes of an outline are those of the preorder. -/
theorem map_snd_outlineAt (depth : Nat) : (n : Node R) →
    (n.outlineAt depth).map Prod.snd = n.preorder
  | ⟨rule, span, children⟩ => by
    rw [outlineAt, preorder, List.map_cons, map_snd_outlineAllAt (depth + 1) children]

theorem map_snd_outlineAllAt (depth : Nat) : (ns : List (Node R)) →
    (outlineAllAt depth ns).map Prod.snd = preorderAll ns
  | [] => by rw [outlineAllAt, preorderAll, List.map_nil]
  | n :: ns => by
    rw [outlineAllAt, preorderAll, List.map_append, map_snd_outlineAt depth n,
      map_snd_outlineAllAt depth ns]

end

/-- **The preorder follows the paths.** -/
theorem map_at?_paths (n : Node R) : n.paths.map n.at? = n.preorder.map some := by
  have hsnd := congrArg (List.map Prod.snd) (n.outlineAt_eq 0)
  rw [List.map_map, List.map_map] at hsnd
  rw [← map_snd_outlineAt 0 n, List.map_map]
  exact hsnd.symm

/-! ## Steps of a walk -/

/-- What holds of no trees, and of some trees when it holds after the first one is taken apart, its
children in its place, holds of all trees. -/
theorem stack_induction {P : List (Node R) → Prop} (nil : P [])
    (cons : ∀ n ns, P (n.children ++ ns) → P (n :: ns)) (ns : List (Node R)) : P ns := by
  obtain ⟨size, hsize⟩ : ∃ size, sizeAll ns = size := ⟨_, rfl⟩
  induction size generalizing ns with
  | zero =>
    cases ns with
    | nil => exact nil
    | cons n ns =>
      rw [sizeAll, size_eq] at hsize
      omega
  | succ size ih =>
    cases ns with
    | nil => exact nil
    | cons n ns =>
      rw [sizeAll, size_eq] at hsize
      refine cons n ns (ih _ ?_)
      rw [sizeAll_append]
      omega

theorem preorderAll_cons (n : Node R) (ns : List (Node R)) :
    preorderAll (n :: ns) = n :: preorderAll (n.children ++ ns) := by
  rw [preorderAll, preorder_eq, preorderAll_append, List.cons_append]

namespace Walk

/-- The steps give these nodes, and then there is no further one. -/
inductive Gives : Walk R → List (Node R) → Prop where
  | done {w : Walk R} : w.next? = none → Gives w []
  | step {w w' : Walk R} {n : Node R} {ns : List (Node R)} :
    w.next? = some (n, w') → Gives w' ns → Gives w (n :: ns)

/-- A step takes the first node off what is to come. -/
theorem preorderAll_of_next? {w w' : Walk R} {n : Node R} (h : w.next? = some (n, w')) :
    preorderAll w.pending = n :: preorderAll w'.pending := by
  obtain ⟨pending⟩ := w
  cases pending with
  | nil => cases h
  | cons m pending =>
    obtain ⟨rfl, rfl⟩ := Prod.mk.inj (Option.some.inj h)
    exact preorderAll_cons m pending

theorem pending_of_next?_eq_none {w : Walk R} (h : w.next? = none) : w.pending = [] := by
  obtain ⟨pending⟩ := w
  cases pending with
  | nil => rfl
  | cons n pending => cases h

theorem gives_preorderAll (pending : List (Node R)) :
    Gives ⟨pending⟩ (preorderAll pending) := by
  induction pending using stack_induction with
  | nil => exact .done rfl
  | cons n ns ih =>
    rw [preorderAll_cons]
    exact .step rfl ih

/-- **The steps end,** and what they give is the preorder of all that is on the stack. -/
theorem gives_iff {w : Walk R} {ns : List (Node R)} : w.Gives ns ↔ ns = preorderAll w.pending := by
  constructor
  · intro h
    induction h with
    | done hnone =>
      rw [pending_of_next?_eq_none hnone]
      rfl
    | step hnext _ ih => rw [preorderAll_of_next? hnext, ih]
  · rintro rfl
    exact gives_preorderAll w.pending

theorem gives_toList (w : Walk R) : w.Gives w.toList := by
  induction w using toList.induct with
  | case1 w hnone =>
    rw [toList, hnone]
    exact .done hnone
  | case2 w n w' hnext ih =>
    rw [toList, hnext]
    exact .step hnext ih

theorem toList_start (n : Node R) : (start n).toList = n.preorder := by
  rw [gives_iff.1 (gives_toList (start n))]
  exact List.append_nil _

end Walk

/-! ## A tree from its list -/

/-- What the list of a walk shows of a node: its rule, its span, and how many children it has. -/
def entry (n : Node R) : R × Span × Nat := (n.rule, n.span, n.children.length)

/-- **The lists of two stacks tell them apart,** if these hold as many trees. -/
theorem eq_of_map_entry_eq {ns ns' : List (Node R)} (hlength : ns.length = ns'.length)
    (h : (preorderAll ns).map entry = (preorderAll ns').map entry) : ns = ns' := by
  induction ns using stack_induction generalizing ns' with
  | nil => exact (List.length_eq_zero_iff.1 hlength.symm).symm
  | cons n ns ih =>
    cases ns' with
    | nil => cases hlength
    | cons n' ns' =>
      rw [preorderAll_cons, preorderAll_cons, List.map_cons, List.map_cons] at h
      obtain ⟨hentry, hlater⟩ := List.cons.inj h
      obtain ⟨rule, span, children⟩ := n
      obtain ⟨rule', span', children'⟩ := n'
      obtain ⟨rfl, hrest⟩ := Prod.mk.inj hentry
      obtain ⟨rfl, hchildren⟩ := Prod.mk.inj hrest
      have hlength : ns.length = ns'.length := Nat.succ.inj hlength
      have hstack : children ++ ns = children' ++ ns' :=
        ih (by rw [List.length_append, List.length_append, hlength]; exact congrArg (· + _) hchildren)
          hlater
      obtain ⟨rfl, rfl⟩ := List.append_inj hstack hchildren
      rfl

theorem preorderAll_eq_flatMap (ns : List (Node R)) : preorderAll ns = ns.flatMap preorder := by
  induction ns with
  | nil => rfl
  | cons n ns ih => rw [preorderAll, ih, List.flatMap_cons]

/-- **A walk gives the preorder.**  From a node on, the steps of a walk end, and what they give
until there is no further node is one list alone: the node itself, and then, one child after
another, what the walks from its children give.  Each place of the tree comes once, in the order of
the paths to it: a node before all below it, and all below an earlier child before a later one.
With the number of children of each node, the list determines the tree. -/
theorem walk_gives_preorder (n : Node R) :
    (∀ ns, (Walk.start n).Gives ns ↔ ns = (Walk.start n).toList) ∧
      (Walk.start n).toList = n :: n.children.flatMap (fun child => (Walk.start child).toList) ∧
      ((Walk.start n).toList.map some = n.paths.map n.at? ∧ n.paths.Pairwise (· < ·) ∧
        ∀ path, path ∈ n.paths ↔ ∃ m, n.at? path = some m) ∧
      ∀ m, (Walk.start n).toList.map entry = (Walk.start m).toList.map entry ↔ n = m := by
  simp only [Walk.toList_start]
  refine ⟨fun ns => ?_, ?_, ⟨n.map_at?_paths.symm, n.paths_sorted, fun _ => n.mem_paths⟩,
    fun m => ⟨fun h => ?_, fun h => h ▸ rfl⟩⟩
  · have hstack : preorderAll (Walk.start n).pending = n.preorder := List.append_nil _
    rw [Walk.gives_iff, hstack]
  · rw [preorder_eq, preorderAll_eq_flatMap]
  · have hstack : preorderAll [n] = n.preorder ∧ preorderAll [m] = m.preorder :=
      ⟨List.append_nil _, List.append_nil _⟩
    rw [← hstack.1, ← hstack.2] at h
    exact List.singleton_inj.1 (eq_of_map_entry_eq rfl h)

end Node
end Descent
