/-
# Evaluation agrees with the text alone

An evaluation keeps a cursor and a list of nodes, cuts them back when a body fails,
and goes on from there.  For parsing expressions all this is beside the point: what
comes out is the verdict that `Peg.Reads` gives on the rest of the input.

| verdict on the rest | outcome |
| --- | --- |
| `refused` | a failure |
| `took taken forest` | a match, the cursor past `taken`, the nodes of `forest` after the older ones |

`Follows` is this of one body, and there is a lemma for each operator.  They need
two facts about the parts: a part only adds (`Body.Extending`), so that a parse which
is not given up at the end was not given up before; and a part that fails leaves no
trace (`Body.Restoring`), so that another one in its place starts from the same text.
The second one fails of a bare chain, which is why `Expr.isPeg` allows a chain only
inside an operator that takes back what it took.
-/

import Descent.Proofs.Peg
import Descent.Proofs.Rollback

namespace Descent

open Peg

variable {R : Type} {n : Nat}

namespace Expr

/-- A parsing expression: it asks nothing about the state, does not give the parse up and does
not recover.  A chain must be `chained`: it is the whole body of an operator that puts the
cursor and the nodes back, or part of such a chain. -/
def isPeg : Expr R n → (chained : Bool) → Bool
  | succeed, _ | fail, _ | pattern _, _ | written _, _ | ref _, _ => true
  | test _, _ | abort _, _ | recover _, _ => false
  | andThen a b, chained => chained && a.isPeg true && b.isPeg true
  | orElse a b, _ => a.isPeg false && b.isPeg false
  | alternative a b, _ => a.isPeg true && b.isPeg false
  | sequence a, _ | repeated _ a, _ | rule _ a, _ => a.isPeg true

@[simp] theorem isPeg_chain (es : List (Expr R n)) :
    (chain es).isPeg true = es.all (·.isPeg true) := by
  induction es with
  | nil => rfl
  | cons e es ih =>
    rw [List.all_cons, ← ih]
    rfl

/-- The alternatives of a choice may be chains. -/
@[simp] theorem isPeg_choice (es : List (Expr R n)) (chained : Bool) :
    (choice es).isPeg chained = es.all (·.isPeg true) := by
  induction es generalizing chained with
  | nil => rfl
  | cons e es ih =>
    rw [List.all_cons, ← ih false]
    rfl

/-- Those of expressions that go on from where the one before failed may not. -/
@[simp] theorem isPeg_firstOf (es : List (Expr R n)) (chained : Bool) :
    (firstOf es).isPeg chained = es.all (·.isPeg false) := by
  induction es generalizing chained with
  | nil => rfl
  | cons e es ih =>
    rw [List.all_cons, ← ih false]
    rfl

end Expr

/-- Every rule of the table has a parsing expression for its body. -/
def Rules.ArePeg (rules : Rules R n) : Prop := ∀ i, (rules i).isPeg false = true

namespace Body

variable [DecidableEq R] {rules : Rules R n}

/-- **Failures leave no trace**, where a bare chain is not allowed. -/
theorem restoring_denote {env : Fin n → Body R} (hext : ∀ i, Extending (env i))
    (henv : ∀ i, Restoring (env i)) {e : Expr R n} (he : e.isPeg false = true) :
    Restoring (Expr.denote env e) := by
  have hadds : ∀ a, Extending (Expr.denote env a) := closed_extending.denote hext
  induction e with
  | succeed => exact fun _ _ h => nomatch Option.some.inj h
  | fail => exact restoring_fail
  | test p => cases he
  | abort e => cases he
  | pattern p => exact restoring_pattern p
  | written notated => exact restoring_written notated
  | andThen a b => cases he
  | orElse a b iha ihb =>
    obtain ⟨ha, hb⟩ := Bool.and_eq_true_iff.1 he
    exact restoring_orElse (iha ha) (ihb hb)
  | recover a => cases he
  | sequence a => exact restoring_sequence (hadds a)
  | alternative a b _ ihb =>
    obtain ⟨-, hb⟩ := Bool.and_eq_true_iff.1 he
    exact restoring_alternative (hadds a) (ihb hb)
  | repeated bounds a => exact restoring_repeated bounds (hadds a)
  | rule tag a => exact restoring_rule tag _
  | ref i => exact henv i

theorem restoring_unfold (hrules : rules.ArePeg) (k : Nat) (i : Fin n) :
    Restoring (Expr.unfold rules k i) := by
  induction k generalizing i with
  | zero => exact fun _ _ h => nomatch h
  | succ k ih => exact restoring_denote (closed_extending.unfold rules k) ih (hrules i)

end Body

namespace Peg

/-- The outcome, from this state, is the verdict on the rest of the input. -/
def Shows (s : State R) : Verdict R → Outcome R → Prop
  | .refused, .failed _ => True
  | .took taken forest, .matched t =>
    s.cursor.Takes taken t.cursor ∧
      ∃ new, t.nodes = s.nodes ++ new ∧ Tree.AreAt s.cursor.input s.offset forest new
  | _, _ => False

namespace Shows

variable {s t : State R} {v : Verdict R} {o : Outcome R}

theorem eq_refused (h : Shows s v (.failed t)) : v = .refused := by
  cases v with
  | refused => rfl
  | took taken forest => cases h

theorem eq_took (h : Shows s v (.matched t)) :
    ∃ taken forest, v = .took taken forest ∧ s.cursor.Takes taken t.cursor := by
  cases v with
  | refused => cases h
  | took taken forest => exact ⟨taken, forest, rfl, h.1⟩

theorem eq_matched {taken : Text} {forest : List (Tree R)} (h : Shows s (.took taken forest) o) :
    ∃ t new, o = .matched t ∧ s.cursor.Takes taken t.cursor ∧ t.nodes = s.nodes ++ new ∧
      Tree.AreAt s.cursor.input s.offset forest new := by
  cases o with
  | failed t => cases h
  | matched t =>
    obtain ⟨htakes, new, hnodes, hat⟩ := h
    exact ⟨t, new, rfl, htakes, hnodes, hat⟩

theorem eq_failed (h : Shows s .refused o) : ∃ t, o = .failed t := by
  cases o with
  | failed t => exact ⟨t, rfl⟩
  | matched t => cases h

/-- A match that adds no node. -/
theorem of_takes {taken : Text} (htakes : s.cursor.Takes taken t.cursor)
    (hfound : t.found = s.found) : Shows s (.took taken []) (.matched t) := by
  refine ⟨htakes, [], ?_, rfl⟩
  rw [List.append_nil]
  exact congrArg List.reverse hfound

/-- From two states at one place and with the same nodes, the same is shown. -/
theorem of_same (hcursor : t.cursor = s.cursor) (hfound : t.found = s.found) (h : Shows t v o) :
    Shows s v o := by
  have hoffset : t.offset = s.offset := congrArg Cursor.offset hcursor
  have hnodes : t.nodes = s.nodes := congrArg List.reverse hfound
  cases v with
  | refused =>
    obtain ⟨u, rfl⟩ := h.eq_failed
    trivial
  | took taken forest =>
    obtain ⟨u, new, rfl, htakes, hnew, hat⟩ := h.eq_matched
    rw [hcursor] at htakes hat
    rw [hoffset] at hat
    rw [hnodes] at hnew
    exact ⟨htakes, new, hnew, hat⟩

/-- **What is shown after a match is shown from its start**, once the trees are moved. -/
theorem after {taken : Text} {forest : List (Tree R)}
    (hst : Shows s (.took taken forest) (.matched t)) (h : Shows t v o) :
    Shows s (v.after taken forest) o := by
  obtain ⟨htaken, new, hnew, hat⟩ := hst
  cases v with
  | refused =>
    obtain ⟨u, rfl⟩ := h.eq_failed
    trivial
  | took more trees =>
    obtain ⟨u, later, rfl, hmore, hlater, hat'⟩ := h.eq_matched
    refine ⟨htaken.trans hmore, new ++ later, ?_, Tree.areAt_append hat (Tree.areAt_map_shift ?_)⟩
    · rw [hlater, hnew, List.append_assoc]
    · have hoffset : t.offset = s.offset + taken.byteLength := htaken.offset
      rw [htaken.input, hoffset] at hat'
      exact hat'

end Shows

/-- On every sound state, an outcome of the body that does not give the parse up shows a verdict
of the expression. -/
def Follows (rules : Rules R n) (e : Expr R n) (x : Body R) : Prop :=
  ∀ ⦃s o⦄, s.cursor.Sound → x s = some o → o.state.isAborted = false →
    ∃ v, Reads rules (.one e) s.rest v ∧ Shows s v o

section

open Body

variable {rules : Rules R n} {a b : Expr R n} {x y : Body R}

theorem follows_pattern (p : Pattern) : Follows rules (.pattern p) (pattern p) := by
  intro s o _ h hfree
  rcases pattern_eq_some h with ⟨hab, rfl⟩ | ⟨-, cursor, hc, rfl⟩ | ⟨-, hc, rfl⟩
  · exact absurd hab (Bool.eq_false_iff.1 hfree)
  · obtain ⟨taken, hp, htakes⟩ := Pattern.match?_eq_some_iff.1 hc
    exact ⟨.took taken [], .pattern htakes.rest hp, .of_takes htakes rfl⟩
  · exact ⟨.refused, .pattern_refused (Pattern.match?_eq_none_iff.1 hc), trivial⟩

theorem follows_written (notated : Text) : Follows rules (.written notated) (written notated) := by
  intro s o hs h hfree
  cases hread : Notation.Terminal.read notated with
  | ok terminal =>
    rw [written_of_read hread] at h
    obtain ⟨v, hv, hshows⟩ := follows_pattern _ hs h hfree
    exact ⟨v, .written hread hv, hshows⟩
  | error cause =>
    rw [written_of_error hread] at h
    obtain rfl := Option.some.inj h
    exact absurd (s.isAborted_abort _) (Bool.eq_false_iff.1 hfree)

theorem follows_andThen (ha : Follows rules a x) (hb : Follows rules b y) (hy : Extending y) :
    Follows rules (.andThen a b) (andThen x y) := by
  intro s o hs h hfree
  rcases andThen_eq_some h with ⟨t, hxt, hyt⟩ | ⟨t, hxt, rfl⟩
  · obtain ⟨v, hv, hst⟩ := ha hs hxt ((hy hyt).isAborted_eq_false hfree)
    obtain ⟨taken, forest, rfl, htakes⟩ := hst.eq_took
    obtain ⟨w, hw, hto⟩ := hb (htakes.sound hs) hyt hfree
    exact ⟨w.after taken forest, .andThen htakes.rest hv hw, hst.after hto⟩
  · obtain ⟨v, hv, hst⟩ := ha hs hxt hfree
    obtain rfl := hst.eq_refused
    exact ⟨.refused, .andThen_refused hv, trivial⟩

/-- The second part starts from the same text, because the first one left no trace. -/
theorem follows_orElse (ha : Follows rules a x) (hx : Restoring x) (hb : Follows rules b y)
    (hy : Extending y) : Follows rules (.orElse a b) (orElse x y) := by
  intro s o hs h hfree
  rcases orElse_eq_some h with ⟨t, hxt, hyt⟩ | ⟨t, hxt, rfl⟩
  · obtain ⟨v, hv, hst⟩ := ha hs hxt ((hy hyt).isAborted_eq_false hfree)
    obtain rfl := hst.eq_refused
    obtain ⟨hcursor, hfound⟩ := hx hxt
    have ht : t.cursor.Sound := by
      rw [hcursor]
      exact hs
    obtain ⟨w, hw, hto⟩ := hb ht hyt hfree
    have hrest : t.rest = s.rest := congrArg Cursor.rest hcursor
    rw [hrest] at hw
    exact ⟨w, .orElse_refused hv hw, .of_same hcursor hfound hto⟩
  · obtain ⟨v, hv, hst⟩ := ha hs hxt hfree
    obtain ⟨taken, forest, rfl, -⟩ := hst.eq_took
    exact ⟨.took taken forest, .orElse hv, hst⟩

theorem follows_sequence (ha : Follows rules a x) : Follows rules a (sequence x) := by
  intro s o hs h hfree
  rcases sequence_eq_some h with ⟨t, hxt, rfl⟩ | ⟨t, hxt, rfl⟩
  · exact ha hs hxt hfree
  · obtain ⟨v, hv, hst⟩ := ha hs hxt hfree
    obtain rfl := hst.eq_refused
    exact ⟨.refused, hv, trivial⟩

theorem follows_alternative (ha : Follows rules a x) (hx : Extending x) (hb : Follows rules b y)
    (hy : Extending y) : Follows rules (.alternative a b) (alternative x y) := by
  intro s o hs h hfree
  rcases alternative_eq_some h with ⟨hab, rfl⟩ | ⟨-, h⟩
  · exact absurd hab (Bool.eq_false_iff.1 hfree)
  · obtain ⟨v, hv, hso⟩ :=
      follows_orElse (follows_sequence ha) (restoring_sequence hx) hb hy hs h hfree
    exact ⟨v, .alternative hv, hso⟩

/-- The node of a rule is the tree over the forest of its body. -/
theorem follows_rule (tag : R) (ha : Follows rules a x) :
    Follows rules (.rule tag a) (rule tag x) := by
  intro s o hs h hfree
  rcases rule_eq_some h with ⟨hab, rfl⟩ | ⟨-, -, rfl⟩ | ⟨-, -, p, hp, ⟨hm, hfree', rfl⟩ | ⟨hno, rfl⟩⟩
  · exact absurd hab (Bool.eq_false_iff.1 hfree)
  · exact absurd (s.isAborted_abort _) (Bool.eq_false_iff.1 hfree)
  · obtain ⟨v, hv, hshows⟩ := ha (s := s.enter tag) hs hp hfree'
    refine ⟨v.under tag, .rule hv, ?_⟩
    cases p with
    | failed t => cases hm
    | matched t =>
      obtain ⟨taken, forest, rfl, htakes⟩ := hshows.eq_took
      obtain ⟨-, new, hnew, hat⟩ := hshows
      have hnodes : (t.leaveMatched tag s.cursor s.found).nodes =
          s.nodes ++ [⟨tag, ⟨t.cursor.input, s.offset, t.offset⟩, t.nodes⟩] := List.reverse_cons
      refine ⟨htakes, _, hnodes, _, _, rfl, ⟨rfl, ?_, htakes.text hs, ?_⟩, rfl⟩
      · have hoffset : t.offset = s.offset + taken.byteLength := htakes.offset
        have hinput : t.cursor.input = s.cursor.input := htakes.input
        rw [hinput, hoffset]
        rfl
      · rw [hnew]
        exact hat
  · obtain ⟨v, hv, hshows⟩ := ha (s := s.enter tag) hs hp hfree
    refine ⟨v.under tag, .rule hv, ?_⟩
    cases p with
    | matched t => exact absurd ⟨rfl, hfree⟩ hno
    | failed t =>
      obtain rfl := hshows.eq_refused
      trivial

theorem isFull_eq_false_iff {bounds : Notation.Repeat} {count : Nat} :
    isFull bounds count = false ↔ HasRoom bounds count := by
  unfold isFull HasRoom
  cases bounds.max with
  | none => simp only [reduceCtorEq, false_implies, implies_true]
  | some most =>
    rw [decide_eq_false_iff_not, Nat.not_le]
    exact ⟨fun h m hm => Option.some.inj hm ▸ h, fun h => h most rfl⟩

/-- How a repetition ends with so many occurrences, unless the parse is given up. -/
def ending (bounds : Notation.Repeat) (count : Nat) (t : State R) : Outcome R :=
  if bounds.min.toNat ≤ count then .matched t else .failed t

/-- A repetition that ends where it stands shows the verdict on no further occurrence. -/
theorem shows_ended {bounds : Notation.Repeat} {count : Nat} {s t : State R}
    (hcursor : t.cursor = s.cursor) (hfound : t.found = s.found) :
    Shows s (.ended bounds count) (ending bounds count t) := by
  unfold Verdict.ended ending
  split
  · refine .of_takes ?_ hfound
    rw [hcursor]
    exact .refl s.cursor
  · trivial

/-- **The loop follows the occurrences.**  An occurrence that fails, or is empty and the last one
needed, ends the loop as it ends the reading, and any other one is a match before the rest of
the loop. -/
theorem reads_loop (ha : Follows rules a x) (hx : Extending x) {bounds : Notation.Repeat}
    {attempts count total : Nat} {s t : State R} (h : Loop bounds x attempts count s total t)
    (hs : s.cursor.Sound) (hfree : t.isAborted = false) :
    ∃ v, Reads rules (.more bounds a count) s.rest v ∧ Shows s v (ending bounds total t) := by
  induction h with
  | @stop attempts count s hstop =>
    have hfull : ¬ HasRoom bounds count := by
      intro hroom
      rw [isFull_eq_false_iff.2 hroom, hfree] at hstop
      exact hstop.elim Bool.false_ne_true Bool.false_ne_true
    exact ⟨_, .full hfull, shows_ended rfl rfl⟩
  | failed hroom _ hu =>
    obtain ⟨v, hv, hsu⟩ := follows_sequence ha hs hu hfree
    obtain rfl := hsu.eq_refused
    obtain ⟨hcursor, hfound⟩ := restoring_sequence hx hu
    exact ⟨_, .last_refused (isFull_eq_false_iff.1 hroom) hv, shows_ended hcursor hfound⟩
  | last hroom _ hu hmay hoff =>
    obtain ⟨v, hv, hsu⟩ := follows_sequence ha hs hu hfree
    obtain ⟨taken, forest, rfl, htakes⟩ := hsu.eq_took
    obtain ⟨hmax, hmin⟩ := mayStop_iff.1 hmay
    refine ⟨_, .last_empty (isFull_eq_false_iff.1 hroom) hv ⟨hmax, hmin, htakes.eq_nil hoff⟩, ?_⟩
    rw [ending, if_pos hmin]
    exact hsu
  | @onward left count total s u t hroom _ hu hon hmore ih =>
    have hut : u.Extends t := hmore.extends hx
    obtain ⟨v, hv, hsu⟩ := follows_sequence ha hs hu (hut.isAborted_eq_false hfree)
    obtain ⟨taken, forest, rfl, htakes⟩ := hsu.eq_took
    have hlast : ¬ IsLast bounds (count + 1) taken := by
      rintro ⟨hmax, hmin, rfl⟩
      exact hon ⟨mayStop_iff.2 ⟨hmax, hmin⟩, htakes.offset⟩
    obtain ⟨w, hw, hto⟩ := ih (htakes.sound hs) hfree
    exact ⟨_, .onward (isFull_eq_false_iff.1 hroom) htakes.rest hv hlast hw, hsu.after hto⟩

theorem follows_repeated (bounds : Notation.Repeat) (ha : Follows rules a x) (hx : Extending x) :
    Follows rules (.repeated bounds a) (repeated bounds x) := by
  intro s o hs h hfree
  rcases repeated_eq_some h with ⟨cause, -, rfl⟩ | ⟨-, count, t, ht, hend⟩
  · exact absurd (s.isAborted_abort _) (Bool.eq_false_iff.1 hfree)
  · have htfree : t.isAborted = false := by
      rcases hend with ⟨-, hfree', -⟩ | ⟨-, rfl⟩
      · exact hfree'
      · exact hfree
    obtain ⟨v, hv, hshows⟩ := reads_loop ha hx ht hs htfree
    refine ⟨v, .repeated hv, ?_⟩
    unfold ending at hshows
    rcases hend with ⟨henough, -, rfl⟩ | ⟨hfew, rfl⟩
    · rw [if_pos henough] at hshows
      exact hshows
    · rw [if_neg fun henough => hfew ⟨henough, htfree⟩] at hshows
      obtain rfl := hshows.eq_refused
      trivial

end

section

variable [DecidableEq R] {rules : Rules R n}

/-- **Every operator keeps to the reading**, over rules whose bodies do. -/
theorem follows_denote {env : Fin n → Body R} (hext : ∀ i, Body.Extending (env i))
    (hrest : ∀ i, Body.Restoring (env i)) (henv : ∀ i, Follows rules (.ref i) (env i))
    {chained : Bool} {e : Expr R n} (he : e.isPeg chained = true) :
    Follows rules e (Expr.denote env e) := by
  have hadds : ∀ a, Body.Extending (Expr.denote env a) := Body.closed_extending.denote hext
  induction e generalizing chained with
  | succeed =>
    intro s o _ h _
    obtain rfl := Option.some.inj h
    exact ⟨.took [] [], .succeed, .of_takes (.refl s.cursor) rfl⟩
  | fail =>
    intro s o _ h _
    obtain rfl := Option.some.inj h
    exact ⟨.refused, .fail, trivial⟩
  | test p => cases he
  | abort e => cases he
  | pattern p => exact follows_pattern p
  | written notated => exact follows_written notated
  | andThen a b iha ihb =>
    obtain ⟨ha, hb⟩ := Bool.and_eq_true_iff.1 he
    exact follows_andThen (iha (Bool.and_eq_true_iff.1 ha).2) (ihb hb) (hadds b)
  | orElse a b iha ihb =>
    obtain ⟨ha, hb⟩ := Bool.and_eq_true_iff.1 he
    exact follows_orElse (iha ha) (Body.restoring_denote hext hrest ha) (ihb hb) (hadds b)
  | recover a => cases he
  | sequence a ih =>
    intro s o hs h hfree
    obtain ⟨v, hv, hshows⟩ := follows_sequence (ih he) hs h hfree
    exact ⟨v, .sequence hv, hshows⟩
  | alternative a b iha ihb =>
    obtain ⟨ha, hb⟩ := Bool.and_eq_true_iff.1 he
    exact follows_alternative (iha ha) (hadds a) (ihb hb) (hadds b)
  | repeated bounds a ih => exact follows_repeated bounds (ih he) (hadds a)
  | rule tag a ih => exact follows_rule tag (ih he)
  | ref i => exact henv i

theorem follows_unfold (hrules : rules.ArePeg) (k : Nat) (i : Fin n) :
    Follows rules (.ref i) (Expr.unfold rules k i) := by
  induction k generalizing i with
  | zero => exact fun _ _ _ h => nomatch h
  | succ k ih =>
    intro s o hs h hfree
    have hbody : Follows rules (rules i) (Expr.eval rules k (rules i)) :=
      follows_denote (Body.closed_extending.unfold rules k) (Body.restoring_unfold hrules k) ih
        (hrules i)
    obtain ⟨v, hv, hshows⟩ := hbody hs h hfree
    exact ⟨v, .ref hv, hshows⟩

/-- **Evaluation is the reading of the rest of the input.**  Take rules and an expression that are
parsing expressions, and any state whose cursor is at its place in the input.  An outcome
that does not give the parse up is a match exactly when the expression takes a beginning of
the rest: then the cursor is past it, and after the older nodes stand those that the forest
describes, and no others.  Otherwise the expression refuses the rest, and the cursor and the
nodes are as they were. -/
theorem eval_eq_reading (hrules : rules.ArePeg) {k : Nat} {e : Expr R n}
    (he : e.isPeg false = true) {s : State R} (hs : s.cursor.Sound) {o : Outcome R}
    (h : Expr.eval rules k e s = some o) (hfree : o.state.isAborted = false) :
    (∃ taken forest t new, o = .matched t ∧
      (∀ v, Reads rules (.one e) s.rest v ↔ v = .took taken forest) ∧
      s.cursor.Takes taken t.cursor ∧ t.nodes = s.nodes ++ new ∧
      Tree.AreAt s.cursor.input s.offset forest new) ∨
    (∃ t, o = .failed t ∧ (∀ v, Reads rules (.one e) s.rest v ↔ v = .refused) ∧
      t.cursor = s.cursor ∧ t.nodes = s.nodes) := by
  have hext := Body.closed_extending.unfold rules k
  have hrest := Body.restoring_unfold hrules k
  obtain ⟨v, hv, hshows⟩ := follows_denote hext hrest (follows_unfold hrules k) he hs h hfree
  have honly : ∀ w, Reads rules (.one e) s.rest w ↔ w = v := by
    intro w
    constructor
    · exact fun hw => hw.deterministic hv
    · rintro rfl
      exact hv
  cases v with
  | took taken forest =>
    obtain ⟨t, new, rfl, htakes, hnodes, hat⟩ := hshows.eq_matched
    exact .inl ⟨taken, forest, t, new, rfl, honly, htakes, hnodes, hat⟩
  | refused =>
    obtain ⟨t, rfl⟩ := hshows.eq_failed
    obtain ⟨hcursor, hfound⟩ := Body.restoring_denote hext hrest he h
    exact .inr ⟨t, rfl, honly, hcursor, congrArg List.reverse hfound⟩

/-- Pairs of parentheses, with any number of pairs inside. -/
def parentheses : Rules Unit 1 := fun _ =>
  .rule () (.chain [.pattern (.character '('), .many (.ref 0), .pattern (.character ')')])

/-- After an older node, two pairs and an open one that has to be given back: the hypotheses of
`eval_eq_reading` hold there, and the evaluation is the reading. -/
theorem eval_eq_reading_parentheses :
    let s : State Unit :=
      { cursor := ⟨['x', '(', '(', ')', ')', '(', ')', '('], 1, ['(', '(', ')', ')', '(', ')', '(']⟩
        found := [⟨(), ⟨['x', '(', '(', ')', ')', '(', ')', '('], 0, 1⟩, []⟩]
        maxDepth := 9, diagnostics := .new true, fatal := none }
    let e : Expr Unit 1 := .many (.ref 0)
    parentheses.ArePeg ∧ e.isPeg false = true ∧ s.cursor.Sound ∧
      ∃ o, Expr.eval parentheses 4 e s = some o ∧ o.state.isAborted = false ∧
        o.state.offset = 7 ∧ o.state.nodes.length = 3 ∧
        ((∃ taken forest t new, o = .matched t ∧
          (∀ v, Reads parentheses (.one e) s.rest v ↔ v = .took taken forest) ∧
          s.cursor.Takes taken t.cursor ∧ t.nodes = s.nodes ++ new ∧
          Tree.AreAt s.cursor.input s.offset forest new) ∨
        (∃ t, o = .failed t ∧ (∀ v, Reads parentheses (.one e) s.rest v ↔ v = .refused) ∧
          t.cursor = s.cursor ∧ t.nodes = s.nodes)) := by
  intro s e
  have hrules : parentheses.ArePeg := fun _ => rfl
  have hs : s.cursor.Sound := rfl
  have hrun : (Expr.eval parentheses 4 e s).map
      (fun o => (o.state.isAborted, o.state.offset, o.state.nodes.length)) = some (false, 7, 3) := by
    decide +kernel
  obtain ⟨o, ho, hfacts⟩ := Option.map_eq_some_iff.1 hrun
  obtain ⟨hfree, hrest⟩ := Prod.mk.inj hfacts
  obtain ⟨hoffset, hnodes⟩ := Prod.mk.inj hrest
  exact ⟨hrules, rfl, hs, o, ho, hfree, hoffset, hnodes, eval_eq_reading hrules rfl hs ho hfree⟩

end

end Peg
end Descent
