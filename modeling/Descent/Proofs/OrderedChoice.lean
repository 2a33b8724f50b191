/-
# A choice is a chain of alternatives

A choice tries its alternatives one after another and rolls each back that fails.  Written
out by hand it is a chain of `orElse`, which hands on the state as the failing alternative
leaves it, and goes on where a choice stops, once the parse is given up:

| | before an alternative | after one that fails | parse given up |
| --- | --- | --- | --- |
| `choice es` | asks whether to go on | rolls it back | stops |
| chain of `es` | | | tries the others |

None of this can be told from the state at the end (`Expr.choice_agrees_with_chain`): what is
rolled back is nothing for an alternative that leaves no trace itself (`Expr.Whole`), or
that is a `sequence`; and nothing happens any more in a parse given up
(`Body.Freezing`).  What can differ is whether an alternative still matches there
(`Expr.chain_matches_given_up`), so the two agree in this as far as the parse goes on
(`Body.AgreeAt`).
-/

import Descent.Proofs.GivenUp

namespace Descent

variable {R : Type}

namespace Body

variable {a b : Body R} {s : State R}

/-- A body that leaves no trace when it fails has nothing to roll back. -/
theorem sequence_eq_self (hext : Extending a) (ha : Restoring a) : sequence a = a := by
  funext s
  unfold sequence
  split
  · rename_i t ht
    obtain ⟨hcursor, hfound⟩ := ha ht
    have hst : s.Extends t := hext ht
    rw [hst.rollback_eq, ← hcursor, ← hfound, ht]
  · rfl

theorem fail_orElse (a : Body R) : orElse fail a = a := rfl

theorem orElse_fail (a : Body R) : orElse a fail = a := by
  funext s
  unfold orElse
  split
  · rename_i t ht
    exact ht.symm
  · rfl

theorem orElse_assoc (a b c : Body R) : orElse (orElse a b) c = orElse a (orElse b c) := by
  funext s
  rcases ha : a s with _ | (t | t)
  · simp only [orElse, ha]
  · simp only [orElse, ha]
  · simp only [orElse, ha]

/-- From this state the second body leads to no state but that in which the first one ends, and with
the same answer as long as the parse is not given up there.  The first one may have an outcome
where the second has none, but then the parse is given up. -/
structure AgreeAt (a b : Body R) (s : State R) : Prop where
  state : ∀ {p}, b s = some p →
    ∃ o, a s = some o ∧ o.state = p.state ∧ (p.state.isAborted = false → o = p)
  free : ∀ {o}, a s = some o → o.state.isAborted = false → b s = some o

theorem AgreeAt.of_eq (h : a s = b s) : AgreeAt a b s where
  state := fun {p} hp => ⟨p, h.trans hp, rfl, fun _ => rfl⟩
  free := fun ho _ => h ▸ ho

end Body

namespace Expr

variable {n : Nat}

/-- An expression that leaves no trace when it fails: a primitive, or a reference to such a body. -/
inductive Whole (rules : Rules R n) : Expr R n → Prop where
  | primitive {e : Expr R n} (he : e.Primitive) : Whole rules e
  | ref {i : Fin n} (hi : Whole rules (rules i)) : Whole rules (.ref i)

variable [DecidableEq R] {rules : Rules R n} {k : Nat} {es : List (Expr R n)} {s t : State R}

theorem Whole.restoring {e : Expr R n} (he : e.Whole rules) (k : Nat) :
    Body.Restoring (eval rules k e) := by
  induction he generalizing k with
  | primitive he => exact he.restoring rules k
  | ref hi ih =>
    cases k with
    | zero => exact fun _ _ h => nomatch h
    | succ k => exact ih k

/-- A chain that starts with what has failed is the first that matches. -/
theorem eval_foldl_orElse (rules : Rules R n) (k : Nat) (es : List (Expr R n)) :
    eval rules k (es.foldl .orElse .fail) = eval rules k (firstOf es) := by
  have hstep (e : Expr R n) : eval rules k (es.foldl .orElse e) =
      Body.orElse (eval rules k e) (eval rules k (firstOf es)) := by
    induction es generalizing e with
    | nil => exact (Body.orElse_fail (eval rules k e)).symm
    | cons e' es ih => exact (ih (.orElse e e')).trans (Body.orElse_assoc _ _ _)
  rw [hstep]
  exact Body.fail_orElse _

/-- Alternatives that leave no trace need not be put in sequences. -/
theorem eval_firstOf_sequence (hes : ∀ e ∈ es, e.Whole rules) :
    eval rules k (firstOf (es.map .sequence)) = eval rules k (firstOf es) := by
  induction es with
  | nil => rfl
  | cons e es ih =>
    obtain ⟨he, hes⟩ := List.forall_mem_cons.1 hes
    show Body.orElse (Body.sequence (eval rules k e)) (eval rules k (firstOf (es.map .sequence))) =
      Body.orElse (eval rules k e) (eval rules k (firstOf es))
    rw [Body.sequence_eq_self (eval_extends rules k e) (he.restoring k), ih hes]

/-- **A choice agrees with its alternatives one after another**, each as a unit.  Where the parse
goes on, they do the same by induction on the alternatives; where it is given up, the choice stops
and nothing happens in the others. -/
theorem agreeAt_choice (rules : Rules R n) (k : Nat) (es : List (Expr R n)) (s : State R) :
    Body.AgreeAt (eval rules k (choice es)) (eval rules k (firstOf (es.map .sequence))) s := by
  induction es generalizing s with
  | nil => exact .of_eq rfl
  | cons e es ih =>
    cases hs : s.isAborted with
    | true =>
      have hchoice : eval rules k (choice (e :: es)) s = some (.failed s) := choice_of_isAborted hs
      refine ⟨fun {p} hp => ⟨_, hchoice, ?_, fun hfree => ?_⟩, fun {o} ho hfree => ?_⟩
      · exact (Body.closed_freezing.eval rules k _ hs hp).symm
      · rw [Body.closed_freezing.eval rules k _ hs hp, hs] at hfree
        cases hfree
      · obtain rfl := Option.some.inj (hchoice.symm.trans ho)
        exact absurd hs (Bool.eq_false_iff.1 hfree)
    | false =>
      have hchain : eval rules k (firstOf ((e :: es).map .sequence)) s = Body.orElse
          (Body.sequence (eval rules k e)) (eval rules k (firstOf (es.map .sequence))) s := rfl
      have hchoice : eval rules k (choice (e :: es)) s = Body.orElse
          (Body.sequence (eval rules k e)) (eval rules k (choice es)) s :=
        if_neg (Bool.eq_false_iff.1 hs)
      rcases he : Body.sequence (eval rules k e) s with _ | (t | t)
      · exact .of_eq (by simp only [hchain, hchoice, Body.orElse, he])
      · exact .of_eq (by simp only [hchain, hchoice, Body.orElse, he])
      · simp only [Body.orElse, he] at hchain hchoice
        exact ⟨fun hp => hchoice ▸ (ih t).state (hchain ▸ hp),
          fun ho hfree => hchain ▸ (ih t).free (hchoice ▸ ho) hfree⟩

/-- **The first alternative that matches decides**: nothing happens in the others. -/
theorem choice_append_of_matched {before : List (Expr R n)}
    (h : eval rules k (choice before) s = some (.matched t)) (after : List (Expr R n)) :
    eval rules k (choice (before ++ after)) s = some (.matched t) ∧
      account rules k (choice (before ++ after)) s = account rules k (choice before) s := by
  induction before generalizing s with
  | nil => cases Option.some.inj h
  | cons e before ih =>
    rcases Body.alternative_eq_some h with ⟨-, ho⟩ | ⟨hfree, h⟩
    · cases ho
    · rcases Body.orElse_eq_some h with ⟨u, hu, hmore⟩ | ⟨u, hu, ho⟩
      · obtain ⟨heval, haccount⟩ := ih hmore
        exact ⟨(Body.alternative_of_failed hfree hu).trans heval,
          (Account.alternative_of_failed hfree hu).trans
            ((congrArg _ haccount).trans (Account.alternative_of_failed hfree hu).symm)⟩
      · obtain rfl := Outcome.matched.inj ho
        exact ⟨Body.alternative_of_matched hfree (Body.sequence_eq_matched_iff.1 hu),
          (Account.alternative_of_matched hfree hu).trans
            (Account.alternative_of_matched hfree hu).symm⟩

/-- A chain has an outcome when its alternatives have one wherever it may come to try them. -/
theorem exists_firstOf
    (h : ∀ e ∈ es, ∀ t, s.Extends t → ∃ o, eval rules k e t = some o) :
    ∃ o, eval rules k (firstOf es) s = some o := by
  induction es generalizing s with
  | nil => exact ⟨_, rfl⟩
  | cons e es ih =>
    obtain ⟨he, hes⟩ := List.forall_mem_cons.1 h
    show ∃ o, Body.orElse (eval rules k e) (eval rules k (firstOf es)) s = some o
    obtain ⟨t | t, ht⟩ := he s (.refl s)
    · exact ⟨_, by rw [Body.orElse, ht]⟩
    · have hst : s.Extends t := eval_extends rules k e ht
      obtain ⟨o, ho⟩ := ih fun e he u hu => hes e he u (hst.trans hu)
      refine ⟨o, ?_⟩
      rw [Body.orElse, ht]
      exact ho

/-- **A choice is a chain of its alternatives.**  If each leaves no trace when it fails, the choice
and the chain come to one state, and to one answer as long as the parse is not given up; and for
alternatives of any kind so do the choice and the chain of their sequences.  They have outcomes
when the alternatives have.  If the first alternatives fail, the next one starts from the cursor and
the nodes that they started from; if one of them matches, nothing happens in the others. -/
theorem choice_agrees_with_chain (rules : Rules R n) (d : Nat) (es : List (Expr R n))
    (s : State R) :
    ((∀ e ∈ es, e.Whole rules) →
      Body.AgreeAt (eval rules d (choice es)) (eval rules d (es.foldl .orElse .fail)) s) ∧
    Body.AgreeAt (eval rules d (choice es))
      (eval rules d ((es.map .sequence).foldl .orElse .fail)) s ∧
    ((∀ e ∈ es, ∀ t, s.Extends t → ∃ o, eval rules d e t = some o) →
      (∃ o, eval rules d (choice es) s = some o) ∧
      (∃ o, eval rules d (es.foldl .orElse .fail) s = some o) ∧
      ∃ o, eval rules d ((es.map .sequence).foldl .orElse .fail) s = some o) ∧
    ∀ before after, es = before ++ after →
      (∀ t, eval rules d (choice before) s = some (.matched t) →
        eval rules d (choice es) s = some (.matched t) ∧
        account rules d (choice es) s = account rules d (choice before) s) ∧
      ∀ u, eval rules d (choice before) s = some (.failed u) →
        u.cursor = s.cursor ∧ u.nodes = s.nodes ∧
        eval rules d (choice es) s = eval rules d (choice after) u ∧
        account rules d (choice es) s =
          account rules d (choice before) s ++ account rules d (choice after) u := by
  rw [eval_foldl_orElse, eval_foldl_orElse]
  have hagree := agreeAt_choice rules d es s
  refine ⟨fun hwhole => ?_, hagree, fun hreturns => ?_, fun before after hes => ?_⟩
  · rw [← eval_firstOf_sequence hwhole]
    exact hagree
  · have hsequences : ∀ e ∈ es.map Expr.sequence, ∀ t, s.Extends t →
        ∃ o, eval rules d e t = some o := by
      intro e' he' t ht
      obtain ⟨e, he, rfl⟩ := List.mem_map.1 he'
      obtain ⟨o, ho⟩ := hreturns e he t ht
      show ∃ o, Body.sequence (eval rules d e) t = some o
      exact Option.ne_none_iff_exists'.1 fun hnone =>
        Option.some_ne_none o (ho.symm.trans (Body.sequence_eq_none_iff.1 hnone))
    obtain ⟨p, hp⟩ := exists_firstOf hsequences
    obtain ⟨o, ho, -⟩ := hagree.state hp
    exact ⟨⟨o, ho⟩, exists_firstOf hreturns, p, hp⟩
  · subst hes
    refine ⟨fun t ht => choice_append_of_matched ht after, fun u hu => ?_⟩
    obtain ⟨hcursor, hnodes, -⟩ := failed_primitive_restores rules d (.choice before) hu
    exact ⟨hcursor, hnodes, choice_append_of_failed hu after⟩

/-- A sequence that takes a rule and then fails, the rule alone, and an alternative that would give
the parse up: the hypotheses of `choice_agrees_with_chain` are satisfiable where there is something
to roll back and something to leave out. -/
theorem choice_agrees_with_chain_rule :
    let rules : Rules Unit 1 := fun _ => .rule () (.pattern (.character 'a'))
    let first : Expr Unit 1 := .sequence (chain [.ref 0, .pattern (.character 'b')])
    let es := [first, .ref 0, .abort (.unknownRule ['m'])]
    let s : State Unit := .start ['a', 'c'] .standard
    (∀ e ∈ es, e.Whole rules) ∧
      (∀ e ∈ es, ∀ t, s.Extends t → ∃ o, eval rules 257 e t = some o) ∧
      ∃ t u, eval rules 257 (choice [first]) s = some (.failed u) ∧ u.cursor = s.cursor ∧
        u.nodes = s.nodes ∧ account rules 257 (choice [first]) s ≠ [] ∧
        eval rules 257 (choice es) s = some (.matched t) ∧ t.isAborted = false ∧
        account rules 257 (choice es) s = account rules 257 (choice [first, .ref 0]) s ∧
        eval rules 257 (es.foldl .orElse .fail) s = some (.matched t) ∧
        eval rules 257 ((es.map .sequence).foldl .orElse .fail) s = some (.matched t) ∧
        ∃ o, eval rules 257 (choice es) u = some o := by
  intro rules first es s
  have hwhole : ∀ e ∈ es, e.Whole rules :=
    List.forall_mem_cons.2 ⟨.primitive (.sequence _),
      List.forall_mem_cons.2 ⟨.ref (.primitive (.rule () _)),
        List.forall_mem_singleton.2 (.primitive (.abort _))⟩⟩
  have hguarded : rules.Guarded := by
    intro i hcycle
    obtain ⟨j, hij, -⟩ := Relation.TransGen.head'_iff.1 hcycle
    cases hij
  have hreturns : ∀ e ∈ es, ∀ t, s.Extends t → ∃ o, eval rules 257 e t = some o := by
    intro e _ t ht
    have hdepth : t.maxDepth = 256 := ht.maxDepth
    exact exists_eval hguarded e (by rw [hdepth])
  obtain ⟨t, ht, hfree⟩ : ∃ t, eval rules 257 (choice [first, .ref 0]) s = some (.matched t) ∧
      t.isAborted = false := ⟨_, rfl, rfl⟩
  obtain ⟨u, hu⟩ : ∃ u, eval rules 257 (choice [first]) s = some (.failed u) := ⟨_, rfl⟩
  have hsomething : account rules 257 (choice [first]) s ≠ [] := List.cons_ne_nil _ _
  obtain ⟨hagree, hsequences, -, hsplit⟩ := choice_agrees_with_chain rules 257 es s
  obtain ⟨hcursor, hnodes, -⟩ := (hsplit [first] _ rfl).2 u hu
  obtain ⟨hchoice, haccount⟩ := (hsplit [first, .ref 0] _ rfl).1 t ht
  have hsu : s.Extends u := eval_extends rules 257 (choice [first]) hu
  obtain ⟨hends, -⟩ := (choice_agrees_with_chain rules 257 es u).2.2.1
    fun e he t htu => hreturns e he t (hsu.trans htu)
  exact ⟨hwhole, hreturns, t, u, hu, hcursor, hnodes, hsomething, hchoice, hfree, haccount,
    (hagree hwhole).free hchoice hfree, hsequences.free hchoice hfree, hends⟩

/-- A chain goes on in a parse given up, and may match there as the choice does not; the state is
one. -/
theorem chain_matches_given_up :
    let rules : Rules Unit 0 := Fin.elim0
    let es : List (Expr Unit 0) := [.abort (.unknownRule ['m']), .sequence .succeed]
    let s : State Unit := .start ['a'] .standard
    let given := s.abort (.unknownRule ['m'])
    eval rules 0 (choice es) s = some (.failed given) ∧
      eval rules 0 (es.foldl .orElse .fail) s = some (.matched given) :=
  ⟨rfl, rfl⟩

end Expr
end Descent
