/-
# What a printed tree tells

A tree is printed with one line for each node, and the lines tell it: two trees are printed alike
just when they are the same in rules, texts and children, wherever they stand in their inputs.

| step | statement |
| --- | --- |
| a line ends where it is seen to end, and tells depth, rule and text | `line_append_inj` |
| so printed trees that are equal have the same lines, one by one | `lines_inj` |
| depths, rules and texts of the lines determine the tree | `labels_append_eq_iff` |

For a line to tell the rule, its name must be a word: not empty, without blank characters, and the
name of no other rule (`Tag.AreWords`).  The text of a node may be any; between its quotes it shows
no line feed, so it can neither end its line early nor look like another node's.

The last step is about the shape alone.  The lines below a node stand further to the right than its
own, and those after them do not; so where a tree ends, and how many children it has, is seen from
the depth of the next line.
-/

import Descent.Node.Render
import Descent.Proofs.Quotation
import Descent.Proofs.TreeWalk

namespace Descent

/-- The names of the rules are words, and tell the rules apart. -/
structure Tag.AreWords (R : Type) [Tag R] : Prop where
  ne_nil : ∀ rule : R, Tag.name rule ≠ []
  no_blank : ∀ rule : R, ∀ c ∈ Tag.name rule, Text.isBlank c = false
  injective : ∀ rule rule' : R, Tag.name rule = Tag.name rule' → rule = rule'

theorem Tag.AreWords.ne_space {R : Type} [Tag R] (hwords : Tag.AreWords R) {rule : R} {c : Char}
    (hc : c ∈ Tag.name rule) : c ≠ ' ' := by
  rintro rfl
  exact absurd (hwords.no_blank rule _ hc) (by decide)

namespace Node

variable {R : Type}

/-! ## Shape -/

/-- What the line of a node tells: how deep the node stands, its rule and its text. -/
def label (entry : Nat × Node R) : Nat × R × Text := (entry.1, entry.2.rule, entry.2.text)

theorem outlineAt_eq_cons (depth : Nat) (n : Node R) :
    n.outlineAt depth = (depth, n) :: outlineAllAt (depth + 1) n.children := by
  cases n
  rw [outlineAt]

theorem head?_labels_cons (depth : Nat) (n : Node R) (ns : List (Node R))
    (later : List (Nat × R × Text)) :
    ((outlineAllAt depth (n :: ns)).map label ++ later).head? = some (label (depth, n)) := by
  rw [outlineAllAt, outlineAt_eq_cons]
  rfl

/-- Where some trees at a depth stand, and what follows them stands higher, the next line is no
deeper than they are. -/
theorem head?_labels_le {depth : Nat} {later : List (Nat × R × Text)} (ns : List (Node R))
    (h : ∀ l ∈ later.head?, l.1 < depth) :
    ∀ l ∈ ((outlineAllAt depth ns).map label ++ later).head?, l.1 ≤ depth := by
  intro l hl
  cases ns with
  | nil =>
    rw [outlineAllAt] at hl
    exact Nat.le_of_lt (h l hl)
  | cons n ns =>
    rw [head?_labels_cons] at hl
    obtain rfl : label (depth, n) = l := Option.some.inj hl
    exact Nat.le_refl depth

section

variable [DecidableEq R]

mutual

/-- **The lines tell the tree,** and where it ends, if what follows stands no deeper. -/
theorem labels_append_eq_iff (depth : Nat) : (n n' : Node R) →
    {later later' : List (Nat × R × Text)} →
    (∀ l ∈ later.head?, l.1 ≤ depth) → (∀ l ∈ later'.head?, l.1 ≤ depth) →
    ((n.outlineAt depth).map label ++ later = (n'.outlineAt depth).map label ++ later' ↔
      n.same n' = true ∧ later = later')
  | ⟨rule, span, children⟩, ⟨rule', span', children'⟩, later, later', h, h' => by
    have hchildren := labelsAll_append_eq_iff (depth + 1) children children'
      (fun l hl => Nat.lt_succ_of_le (h l hl)) fun l hl => Nat.lt_succ_of_le (h' l hl)
    rw [outlineAt, outlineAt, List.map_cons, List.map_cons, List.cons_append, List.cons_append,
      List.cons.injEq, hchildren]
    simp only [label, text, same, Span.sameText, Prod.mk.injEq, true_and, Bool.and_eq_true,
      decide_eq_true_eq, beq_iff_eq, and_assoc]

theorem labelsAll_append_eq_iff (depth : Nat) : (ns ns' : List (Node R)) →
    {later later' : List (Nat × R × Text)} →
    (∀ l ∈ later.head?, l.1 < depth) → (∀ l ∈ later'.head?, l.1 < depth) →
    ((outlineAllAt depth ns).map label ++ later = (outlineAllAt depth ns').map label ++ later' ↔
      sameAll ns ns' = true ∧ later = later')
  | [], [], later, later', _, _ => by
    rw [outlineAllAt, sameAll, List.map_nil, List.nil_append, List.nil_append]
    exact (and_iff_right rfl).symm
  | [], n' :: ns', later, later', h, _ => by
    -- a tree on one side alone stands at the depth, where nothing that follows does
    refine ⟨fun heq => ?_, fun heq => nomatch heq.1⟩
    have hhead := head?_labels_cons depth n' ns' later'
    rw [← heq, outlineAllAt] at hhead
    exact absurd (h _ hhead) (Nat.lt_irrefl depth)
  | n :: ns, [], later, later', _, h' => by
    refine ⟨fun heq => ?_, fun heq => nomatch heq.1⟩
    have hhead := head?_labels_cons depth n ns later
    rw [heq, outlineAllAt] at hhead
    exact absurd (h' _ hhead) (Nat.lt_irrefl depth)
  | n :: ns, n' :: ns', later, later', h, h' => by
    rw [outlineAllAt, outlineAllAt, List.map_append, List.map_append, List.append_assoc,
      List.append_assoc, labels_append_eq_iff depth n n' (head?_labels_le ns h)
        (head?_labels_le ns' h'), labelsAll_append_eq_iff depth ns ns' h h', sameAll,
      Bool.and_eq_true, and_assoc]

end

theorem labels_eq_iff {n n' : Node R} :
    (n.outlineAt 0).map label = (n'.outlineAt 0).map label ↔ n.same n' = true := by
  have hnothing : ∀ l ∈ ([] : List (Nat × R × Text)).head?, l.1 ≤ 0 := fun _ h => nomatch h
  have hiff := labels_append_eq_iff 0 n n' hnothing hnothing
  rwa [List.append_nil, List.append_nil, and_iff_left rfl] at hiff

theorem sameAll_iff {ns ns' : List (Node R)} :
    sameAll ns ns' = true ↔ List.Forall₂ (fun n n' => n.same n' = true) ns ns' := by
  induction ns generalizing ns' with
  | nil => cases ns' <;> simp [sameAll]
  | cons n ns ih => cases ns' <;> simp [sameAll, ih]

theorem same_iff {n n' : Node R} :
    n.same n' = true ↔ n.rule = n'.rule ∧ n.text = n'.text ∧
      List.Forall₂ (fun child child' => child.same child' = true) n.children n'.children := by
  obtain ⟨rule, span, children⟩ := n
  obtain ⟨rule', span', children'⟩ := n'
  rw [← sameAll_iff, same]
  simp only [Span.sameText, text, Bool.and_eq_true, decide_eq_true_eq, beq_iff_eq, and_assoc]

end

/-! ## Lines -/

variable [Tag R] {hidden : Char → Bool}

/-- The line of a depth, a rule and a text, less the line feed. -/
def lineOf (hidden : Char → Bool) : Nat × R × Text → Text
  | (depth, rule, text) =>
    List.replicate (2 * depth) ' ' ++ (Tag.name rule ++ ' ' :: Text.Quoted.encode hidden text)

theorem renderWith_eq (hidden : Char → Bool) (n : Node R) :
    n.renderWith hidden =
      (((n.outlineAt 0).map label).map (lineOf hidden)).flatMap (· ++ ['\n']) := by
  have hline (entry : Nat × Node R) :
      line hidden entry.1 entry.2 = lineOf hidden (label entry) ++ ['\n'] := by
    rw [line, List.append_assoc, List.append_assoc, label, lineOf, List.append_assoc,
      List.append_assoc]
  rw [List.map_map, List.flatMap_map]
  exact List.flatMap_congr fun entry _ => hline entry

/-- The spaces at the head of a line tell the depth. -/
theorem indent_append_inj (hwords : Tag.AreWords R) {depth depth' : Nat} {rule rule' : R}
    {more more' : Text}
    (h : List.replicate (2 * depth) ' ' ++ (Tag.name rule ++ more) =
      List.replicate (2 * depth') ' ' ++ (Tag.name rule' ++ more')) :
    depth = depth' ∧ Tag.name rule ++ more = Tag.name rule' ++ more' := by
  have hspaces (count : Nat) : ∀ c ∈ List.replicate count ' ', (c == ' ') = true := by
    intro c hc
    rw [List.eq_of_mem_replicate hc]
    rfl
  have hname (rule : R) (more : Text) :
      ∀ c ∈ (Tag.name rule ++ more).head?, (c == ' ') = false := by
    intro c hc
    rw [List.head?_append_of_ne_nil _ (hwords.ne_nil rule)] at hc
    exact beq_eq_false_iff_ne.2 (hwords.ne_space (List.mem_of_mem_head? hc))
  obtain ⟨hindent, hrest⟩ :=
    Text.span_append_inj h (hspaces _) (hname rule more) (hspaces _) (hname rule' more')
  have hlength := congrArg List.length hindent
  rw [List.length_replicate, List.length_replicate] at hlength
  exact ⟨by omega, hrest⟩

/-- The characters up to the next space tell the rule. -/
theorem name_append_inj (hwords : Tag.AreWords R) {rule rule' : R} {more more' : Text}
    (h : Tag.name rule ++ ' ' :: more = Tag.name rule' ++ ' ' :: more') :
    rule = rule' ∧ more = more' := by
  have hword (rule : R) : ∀ c ∈ Tag.name rule, (c != ' ') = true := fun c hc =>
    bne_iff_ne.2 (hwords.ne_space hc)
  obtain ⟨hname, hmore⟩ :=
    Text.delimited_inj (p := (· != ' ')) rfl h (hword rule) (hword rule')
  exact ⟨hwords.injective rule rule' hname, hmore⟩

/-- **A line tells where it ends,** and depth, rule and text. -/
theorem line_append_inj (hwords : Tag.AreWords R) {l l' : Nat × R × Text} {later later' : Text}
    (h : lineOf hidden l ++ '\n' :: later = lineOf hidden l' ++ '\n' :: later') :
    l = l' ∧ later = later' := by
  obtain ⟨depth, rule, text⟩ := l
  obtain ⟨depth', rule', text'⟩ := l'
  rw [lineOf, lineOf, List.append_assoc, List.append_assoc, List.append_assoc,
    List.append_assoc] at h
  obtain ⟨rfl, hname⟩ := indent_append_inj hwords h
  obtain ⟨rfl, hquoted⟩ := name_append_inj hwords hname
  obtain ⟨rfl, hlater⟩ := Text.Quoted.encode_append_inj hquoted
  exact ⟨rfl, (List.cons.inj hlater).2⟩

/-- **A text of lines tells each of them.** -/
theorem lines_inj (hwords : Tag.AreWords R) {ls ls' : List (Nat × R × Text)}
    (h : (ls.map (lineOf hidden)).flatMap (· ++ ['\n']) =
      (ls'.map (lineOf hidden)).flatMap (· ++ ['\n'])) : ls = ls' := by
  induction ls generalizing ls' with
  | nil =>
    cases ls' with
    | nil => rfl
    | cons l' ls' => simp at h
  | cons l ls ih =>
    cases ls' with
    | nil => simp at h
    | cons l' ls' =>
      simp only [List.map_cons, List.flatMap_cons, List.append_assoc, List.singleton_append] at h
      obtain ⟨rfl, hlater⟩ := line_append_inj hwords h
      rw [ih hlater]

theorem newline_not_mem_lineOf (hwords : Tag.AreWords R) (hidden : Char → Bool)
    (l : Nat × R × Text) : '\n' ∉ lineOf hidden l := by
  obtain ⟨depth, rule, text⟩ := l
  have hname : '\n' ∉ Tag.name rule := fun h =>
    absurd (hwords.no_blank rule _ h) (by decide)
  have hquoted := Text.Quoted.newline_not_mem_encode hidden text
  simp [lineOf, hname, hquoted]

/-- Lines that hold no line feed are what stands between the line feeds. -/
theorem splitOn_lines {ls : List Text} (h : ∀ l ∈ ls, '\n' ∉ l) :
    (ls.flatMap (· ++ ['\n'])).splitOn '\n' = ls ++ [[]] := by
  induction ls with
  | nil => rfl
  | cons l ls ih =>
    obtain ⟨hl, hls⟩ := List.forall_mem_cons.1 h
    have hnone : ∀ c ∈ l, (c == '\n') = false := fun c hc =>
      beq_eq_false_iff_ne.2 fun heq => hl (heq ▸ hc)
    rw [List.flatMap_cons, List.append_assoc, List.singleton_append, List.splitOn,
      List.splitOnP_append_cons_of_forall_mem hnone '\n' rfl]
    exact congrArg (l :: ·) (ih hls)

/-- **A printed tree tells the tree.**  Two trees are printed alike just when they are the same, and
that is when their rules and texts are the same and their children are, one by one; where they
stand in their inputs does not count.  A printed tree has one line for each node, in the order of a
walk: twice as many spaces as the node is deep, the name of the rule, and its text between
quotes.  All this holds whichever characters are shown by number. -/
theorem printed_tree_tells_tree [DecidableEq R] (hwords : Tag.AreWords R) (hidden : Char → Bool)
    (n m : Node R) :
    (n.renderWith hidden = m.renderWith hidden ↔ n.same m = true) ∧
      (n.same m = true ↔ n.rule = m.rule ∧ n.text = m.text ∧
        List.Forall₂ (fun child child' => child.same child' = true) n.children m.children) ∧
      (n.renderWith hidden).splitOn '\n' =
        (n.outlineAt 0).map (fun (depth, node) =>
          List.replicate (2 * depth) ' ' ++
            (Tag.name node.rule ++ ' ' :: Text.Quoted.encode hidden node.text)) ++ [[]] ∧
      (n.outlineAt 0).map Prod.snd = (Walk.start n).toList ∧
      (n.outlineAt 0).map (fun (depth, node) => (depth, some node)) =
        n.paths.map fun path => (path.length, n.at? path) := by
  refine ⟨⟨fun h => ?_, fun h => ?_⟩, same_iff, ?_, ?_, ?_⟩
  · rw [renderWith_eq, renderWith_eq] at h
    exact labels_eq_iff.1 (lines_inj hwords h)
  · rw [renderWith_eq, renderWith_eq, labels_eq_iff.2 h]
  · rw [renderWith_eq, splitOn_lines fun l hl => ?_, List.map_map]
    · rfl
    · obtain ⟨label, -, rfl⟩ := List.mem_map.1 hl
      exact newline_not_mem_lineOf hwords hidden label
  · rw [map_snd_outlineAt, Walk.toList_start]
  · simpa using n.outlineAt_eq 0

/-- A text that looks like a line of its own, the same text later in another input, and the tree
that it looks like: the hypothesis of `printed_tree_tells_tree` is satisfiable, and the first two
are printed alike, but not the third. -/
theorem printed_tree_tells_tree_lookalike :
    let _ : Tag Bool := ⟨fun b => if b then ['P'] else ['K']⟩
    let lone : Node Bool := ⟨true, ⟨"a\"\n  K \"b".toList, 0, 9⟩, []⟩
    let later : Node Bool := ⟨true, ⟨"xa\"\n  K \"b".toList, 1, 10⟩, []⟩
    let pair : Node Bool := ⟨true, ⟨['a', 'b'], 0, 1⟩, [⟨false, ⟨['a', 'b'], 1, 2⟩, []⟩]⟩
    Tag.AreWords Bool ∧ lone.render = later.render ∧ lone.render ≠ pair.render ∧
      (pair.render.splitOn '\n').length = 3 ∧ (Walk.start pair).toList.length = 2 := by
  intro _ lone later pair
  have hwords : Tag.AreWords Bool :=
    { ne_nil := by rintro (_ | _) <;> exact List.cons_ne_nil _ _
      no_blank := by rintro (_ | _) c hc <;> (rw [List.mem_singleton.1 hc]; rfl)
      injective := by
        rintro (_ | _) (_ | _) h
        · rfl
        · cases h
        · cases h
        · rfl }
  have hlater := (printed_tree_tells_tree hwords Text.isUnprintable lone later).1
  have hpair := (printed_tree_tells_tree hwords Text.isUnprintable lone pair).1
  obtain ⟨-, -, hlines, hwalk, -⟩ :=
    printed_tree_tells_tree hwords Text.isUnprintable pair pair
  refine ⟨hwords, hlater.2 (by decide), fun h => ?_, ?_, ?_⟩
  · exact absurd (hpair.1 h) (by decide)
  · rw [render, hlines]
    rfl
  · rw [← hwalk]
    rfl

end Node
end Descent
