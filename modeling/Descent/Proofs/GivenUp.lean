/-
# A parse that is given up

A fatal error is set in one place, the field `fatal` of the state, and every operator
has its own way to notice it.  What they come to is that nothing happens any more: an
expression that is applied to a state given up leaves that very state, whether it
matches or fails (`Body.Freezing`).  So the error that is raised first is the one in the
last state (`Expr.fatal_eq_first`), and a parse answers with it, whatever the grammar
recovered from in between (`Expr.first_fatal_error_wins`).

Not every operator fails on a state given up.  Those that are left to their parts are
`sequence`, which does as its body does, and `choice` once an alternative has begun:

| primitive | on a state given up | when its parts gave up but matched |
| --- | --- | --- |
| `sequence` | as its body | matches |
| `choice` | fails | matches |
| all others | fail | fail |

`Expr.primitives_given_up` is this table for every body, and
`Expr.sequence_matches_given_up` an instance of its exceptions.
-/

import Descent.Grammar
import Descent.Proofs.Account
import Descent.Proofs.Rollback
import Descent.Proofs.Termination

namespace Descent

variable {R : Type}

namespace Body

/-- On a state given up, the body leaves that state. -/
def Freezing (a : Body R) : Prop := ∀ ⦃s o⦄, s.isAborted = true → a s = some o → o.state = s

variable {a b : Body R}

theorem freezing_pattern (p : Pattern) : Freezing (pattern p : Body R) := by
  intro s o hs h
  rcases pattern_eq_some h with ⟨-, rfl⟩ | ⟨hfree, -⟩ | ⟨hfree, -⟩
  · rfl
  · exact absurd hs (Bool.eq_false_iff.1 hfree)
  · exact absurd hs (Bool.eq_false_iff.1 hfree)

theorem freezing_andThen (ha : Freezing a) (hb : Freezing b) : Freezing (andThen a b) := by
  intro s o hs h
  rcases andThen_eq_some h with ⟨t, hat, hbt⟩ | ⟨t, hat, rfl⟩
  · obtain rfl : t = s := ha hs hat
    exact hb hs hbt
  · exact ha hs hat

theorem freezing_orElse (ha : Freezing a) (hb : Freezing b) : Freezing (orElse a b) := by
  intro s o hs h
  rcases orElse_eq_some h with ⟨t, hat, hbt⟩ | ⟨t, hat, rfl⟩
  · obtain rfl : t = s := ha hs hat
    exact hb hs hbt
  · exact ha hs hat

theorem freezing_sequence (ha : Freezing a) : Freezing (sequence a) := by
  intro s o hs h
  rcases sequence_eq_some h with ⟨t, hat, rfl⟩ | ⟨t, hat, rfl⟩
  · exact ha hs hat
  · obtain rfl : t = s := ha hs hat
    exact (State.Extends.refl t).rollback_eq

theorem freezing_repeated (bounds : Notation.Repeat) (ha : Freezing a) :
    Freezing (repeated bounds a) := by
  intro s o hs h
  rcases repeated_eq_some h with ⟨cause, -, rfl⟩ | ⟨-, count, t, ht, hend⟩
  · exact State.abort_of_isAborted hs _
  · have hloop : t = s := ht.keeps (P := (· = s))
      (fun {u o} hu hstep => hu ▸ freezing_sequence ha (hu ▸ hs) hstep) rfl
    obtain rfl := hloop
    rcases hend with ⟨-, -, rfl⟩ | ⟨-, rfl⟩
    · rfl
    · exact (State.Extends.refl t).rollback_eq

theorem freezing_rule (tag : R) (a : Body R) : Freezing (rule tag a) := by
  intro s o hs h
  rcases rule_eq_some h with ⟨-, rfl⟩ | ⟨hfree, -⟩ | ⟨hfree, -⟩
  · rfl
  · exact absurd hs (Bool.eq_false_iff.1 hfree)
  · exact absurd hs (Bool.eq_false_iff.1 hfree)

theorem closed_freezing : Closed (Freezing (R := R)) where
  never := fun _ _ _ h => nomatch h
  succeed := fun s _ _ h => Option.some.inj h ▸ rfl
  fail := fun s _ _ h => Option.some.inj h ▸ rfl
  test := fun p s o _ h => by
    obtain rfl := Option.some.inj h
    split <;> rfl
  abort := fun e s _ hs h => Option.some.inj h ▸ State.abort_of_isAborted hs e
  pattern := freezing_pattern
  andThen := freezing_andThen
  orElse := freezing_orElse
  recover := fun ha s o hs h => by
    obtain ⟨p, hp, rfl⟩ := recover_eq_some h
    show p.state = s
    exact ha hs hp
  sequence := freezing_sequence
  alternative := fun ha hb s o hs h => by
    rcases alternative_eq_some h with ⟨-, rfl⟩ | ⟨hfree, -⟩
    · rfl
    · exact absurd hs (Bool.eq_false_iff.1 hfree)
  repeated := fun bounds _ ha => freezing_repeated bounds ha
  rule := fun tag a _ => freezing_rule tag a

/-- On a state given up the body fails at once, and where it matches the parse is not given up. -/
structure Heeding (a : Body R) : Prop where
  fails : ∀ {s}, s.isAborted = true → a s = some (.failed s)
  free : ∀ {s t}, a s = some (.matched t) → t.isAborted = false

theorem heeding_abort (e : Error) : Heeding (abort e : Body R) where
  fails := fun {s} hs => by rw [abort, State.abort_of_isAborted hs]
  free := fun h => nomatch Option.some.inj h

theorem heeding_pattern (p : Pattern) : Heeding (pattern p : Body R) where
  fails := fun hs => by rw [pattern, if_pos hs]
  free := fun {s t} h => by
    rcases pattern_eq_some h with ⟨-, ho⟩ | ⟨hfree, cursor, -, ho⟩ | ⟨-, -, ho⟩
    · cases ho
    · obtain rfl := Outcome.matched.inj ho
      exact hfree
    · cases ho

theorem heeding_written (notated : Text) : Heeding (written notated : Body R) := by
  cases h : Notation.Terminal.read notated with
  | ok terminal =>
    rw [written_of_read h]
    exact heeding_pattern _
  | error cause =>
    rw [written_of_error h]
    exact heeding_abort _

/-- A repetition looks at the state before each occurrence and once more at the end. -/
theorem heeding_repeated (bounds : Notation.Repeat) (a : Body R) : Heeding (repeated bounds a) where
  fails := fun {s} hs => by
    unfold repeated
    split
    · exact (heeding_abort _).fails hs
    · have hloop : Loop bounds a (attempts bounds s.rest) 0 s 0 s := .stop (.inr hs)
      have hback : s.rollback s.cursor s.found.length = s := (State.Extends.refl s).rollback_eq
      rw [hloop.occurrences_eq, Option.map_some]
      simp only [hs, Bool.not_true, Bool.and_false, Bool.false_eq_true, if_false, hback]
  free := fun {s t} h => by
    rcases repeated_eq_some h with ⟨cause, -, ho⟩ | ⟨-, count, u, -, ⟨-, hfree, ho⟩ | ⟨-, ho⟩⟩
    · cases ho
    · obtain rfl := Outcome.matched.inj ho
      exact hfree
    · cases ho

theorem heeding_rule (tag : R) (a : Body R) : Heeding (rule tag a) where
  fails := fun hs => by rw [rule, if_pos hs]
  free := fun {s t} h => by
    rcases rule_eq_some h with ⟨-, ho⟩ | ⟨-, -, ho⟩ | ⟨-, -, p, -, ⟨-, hfree, ho⟩ | ⟨-, ho⟩⟩
    · cases ho
    · cases ho
    · obtain rfl := Outcome.matched.inj ho
      exact hfree
    · cases ho

theorem sequence_eq_matched_iff {s t : State R} :
    sequence a s = some (.matched t) ↔ a s = some (.matched t) := by
  refine ⟨fun h => ?_, fun h => by rw [sequence, h]⟩
  rcases sequence_eq_some h with ⟨u, hu, ho⟩ | ⟨u, -, ho⟩
  · rwa [Outcome.matched.inj ho]
  · cases ho

theorem alternative_of_matched {s t : State R} (hs : s.isAborted = false)
    (h : a s = some (.matched t)) : alternative a b s = some (.matched t) := by
  rw [alternative, if_neg (Bool.eq_false_iff.1 hs), orElse, sequence_eq_matched_iff.2 h]

theorem alternative_of_failed {s t : State R} (hs : s.isAborted = false)
    (h : sequence a s = some (.failed t)) : alternative a b s = b t := by
  rw [alternative, if_neg (Bool.eq_false_iff.1 hs), orElse, h]

end Body

/-- The error after some moments is the one before them, or else the first that they raise. -/
theorem composing_fatal :
    Composing fun (s : State R) ms t => t.fatal = (s.fatal <|> (Moment.errors ms).head?) where
  nothing := fun s => by cases s.fatal <;> rfl
  followed := fun {s t u ms ms'} _ _ hst htu => by
    rw [htu, hst, Moment.errors_append, List.head?_append]
    cases s.fatal <;> cases (Moment.errors ms).head? <;> rfl
  took := fun {s _ _} _ => by cases s.fatal <;> rfl
  missed := fun {s} _ => show s.fatal = (s.fatal <|> none) by cases s.fatal <;> rfl
  raised := fun _ _ => rfl
  refused := fun _ _ => rfl
  rolledBack := fun _ h => h
  leftMatched := fun _ _ _ _ h _ => h
  leftFailed := fun _ _ _ _ h => h

/-- A parse that was given up answers with the error for which it was. -/
theorem Parse.conclude_of_fatal [Tag R] {o : Outcome R} {e : Error} (h : o.state.fatal = some e)
    (name input : Text) : conclude name input o = .error e := by
  unfold conclude
  dsimp only
  rw [h]

/-- A parse that was not given up answers with its root if the body matched and left one. -/
theorem Parse.conclude_of_free [Tag R] {o : Outcome R} (h : o.state.isAborted = false)
    (name input : Text) :
    conclude name input o =
      if o.isMatched then
        match o.state.nodes with
        | [root] => .ok ⟨root, input.byteLength, o.state.diagnostics.events?⟩
        | nodes => .error (.rootCount name nodes.length)
      else .error (noMatch name o.state.diagnostics) := by
  have hfatal : o.state.fatal = none := State.fatal_eq_none h
  unfold conclude
  dsimp only
  split
  · rename_i e he
    cases he.symm.trans hfatal
  · rfl

namespace Expr

variable [DecidableEq R] {n : Nat} {rules : Rules R n}

/-- **The first error stays.** -/
theorem fatal_eq_first {k : Nat} {e : Expr R n} {s : State R} {o : Outcome R}
    (h : eval rules k e s = some o) :
    o.state.fatal = (s.fatal <|> (Moment.errors (account rules k e s)).head?) :=
  composing_fatal.eval rules h

/-- Where an error is raised, a parse answers with the first one as soon as the body returns. -/
theorem run_of_first_error [Tag R] {e : Expr R n} {input : Text} {config : Config} {first : Error}
    {later : List Error}
    (h : Moment.errors (moments rules e (.start input config)) = first :: later) (name : Text) :
    Parse.run name (body rules e) input config =
      (body rules e (.start input config)).map fun _ => .error first := by
  unfold Parse.run
  refine Option.map_congr fun o ho => Parse.conclude_of_fatal ?_ name input
  have hfirst := fatal_eq_first ho
  rw [show account rules _ e _ = moments rules e _ from rfl, h] at hfirst
  exact hfirst

/-- **The first fatal error wins and freezes the parse.**  An expression that is applied to a state
given up leaves that state, in all its parts and whether it matches or fails.  And when any error
is raised while a body runs, then a parse with it, by name or by tag, gives no other answer than
the error raised first, and it gives this answer if the body returns at all, matched or failed;
which it does when every cycle of references enters a rule. -/
theorem first_fatal_error_wins [Tag R] (rules : Rules R n) (e : Expr R n) :
    (∀ k s o, s.isAborted = true → eval rules k e s = some o → o.state = s) ∧
      ∀ (input : Text) (config : Config) (first : Error) (later : List Error),
        Moment.errors (moments rules e (.start input config)) = first :: later →
        (∀ (g : Grammar R) (name : Text), g.get name = .ok (body rules e) →
            g.parseWith name input config =
              (body rules e (.start input config)).map fun _ => .error first) ∧
          (∀ (bodyOf : R → Body R) (tag : R), bodyOf tag = body rules e →
            Parse.withTag bodyOf tag input config =
              (body rules e (.start input config)).map fun _ => .error first) ∧
          (rules.Guarded → ∃ o, body rules e (.start input config) = some o) := by
  refine ⟨fun k s o hs ho => Body.closed_freezing.eval rules k e hs ho,
    fun input config first later hraised => ⟨fun g name hg => ?_, fun bodyOf tag htag => ?_,
      fun hguarded => exists_eval hguarded e (le_nesting rules e _)⟩⟩
  · rw [Grammar.parseWith, hg]
    exact run_of_first_error hraised name
  · rw [Parse.withTag, htag]
    exact run_of_first_error hraised (Tag.name tag)

/-- An error is raised, then recovered from, and then another one is raised and recovered from: the
hypotheses of `first_fatal_error_wins` are satisfiable where the body matches in the end. -/
theorem first_fatal_error_wins_recovered :
    let _ : Tag Unit := ⟨fun _ => ['r']⟩
    let e : Expr Unit 0 :=
      chain [.recover (.abort (.unknownRule ['m'])), .recover (.written ['%']), .succeed]
    let rules : Rules Unit 0 := Fin.elim0
    let s : State Unit := .start ['a'] .standard
    let given := s.abort (.unknownRule ['n'])
    ∃ (g : Grammar Unit) (later : List Error), g.get ['g'] = .ok (body rules e) ∧
      later ≠ [] ∧ Moment.errors (moments rules e s) = .unknownRule ['m'] :: later ∧
      rules.Guarded ∧ given.isAborted = true ∧
      (∃ o, eval rules 0 e given = some o ∧ o.isMatched = true ∧ o.state = given) ∧
      (∃ o, body rules e s = some o ∧ o.isMatched = true) ∧
      g.parseWith ['g'] ['a'] .standard =
        (body rules e s).map (fun _ => .error (.unknownRule ['m'])) ∧
      Parse.withTag (fun _ => body rules e) () ['a'] .standard =
        (body rules e s).map fun _ => .error (.unknownRule ['m']) := by
  intro _ e rules s given
  let g : Grammar Unit := ⟨[(⟨['g']⟩, body rules e)]⟩
  have hg : g.get ['g'] = .ok (body rules e) := rfl
  have hguarded : rules.Guarded := fun i => i.elim0
  have hgiven : given.isAborted = true := s.isAborted_abort _
  obtain ⟨later, hlater, hraised⟩ : ∃ later, later ≠ [] ∧
      Moment.errors (moments rules e s) = .unknownRule ['m'] :: later :=
    ⟨_, List.cons_ne_nil _ [], rfl⟩
  obtain ⟨o, ho, hmatched⟩ : ∃ o, eval rules 0 e given = some o ∧ o.isMatched = true :=
    ⟨_, rfl, rfl⟩
  obtain ⟨p, hp, hpmatched⟩ : ∃ o, body rules e s = some o ∧ o.isMatched = true := ⟨_, rfl, rfl⟩
  have hfrozen : o.state = given := (first_fatal_error_wins rules e).1 0 given o hgiven ho
  obtain ⟨hbyName, hbyTag, -⟩ :=
    (first_fatal_error_wins rules e).2 ['a'] .standard _ later hraised
  exact ⟨g, later, hg, hlater, hraised, hguarded, hgiven, ⟨o, ho, hmatched, hfrozen⟩,
    ⟨p, hp, hpmatched⟩, hbyName g ['g'] hg, hbyTag (fun _ => body rules e) () rfl⟩

variable {k : Nat}

/-- No alternative is tried on a state given up. -/
theorem choice_of_isAborted {es : List (Expr R n)} {s : State R} (hs : s.isAborted = true) :
    eval rules k (choice es) s = some (.failed s) := by
  cases es with
  | nil => rfl
  | cons e es =>
    show Body.alternative _ _ s = _
    rw [Body.alternative, if_pos hs]

theorem account_choice_of_isAborted {es : List (Expr R n)} {s : State R}
    (hs : s.isAborted = true) : account rules k (choice es) s = [] := by
  cases es with
  | nil => rfl
  | cons e es => exact Account.alternative_of_isAborted hs

/-- Where the first alternatives fail, the others decide, from the state that these leave. -/
theorem choice_append_of_failed {before : List (Expr R n)} {s t : State R}
    (h : eval rules k (choice before) s = some (.failed t)) (after : List (Expr R n)) :
    eval rules k (choice (before ++ after)) s = eval rules k (choice after) t ∧
      account rules k (choice (before ++ after)) s =
        account rules k (choice before) s ++ account rules k (choice after) t := by
  induction before generalizing s with
  | nil =>
    obtain rfl := Outcome.failed.inj (Option.some.inj h)
    exact ⟨rfl, rfl⟩
  | cons e before ih =>
    rcases Body.alternative_eq_some h with ⟨hab, ho⟩ | ⟨hfree, h⟩
    · obtain rfl := Outcome.failed.inj ho
      rw [choice_of_isAborted hab, choice_of_isAborted hab, account_choice_of_isAborted hab,
        account_choice_of_isAborted hab, account_choice_of_isAborted hab]
      exact ⟨rfl, rfl⟩
    · rcases Body.orElse_eq_some h with ⟨u, hu, hmore⟩ | ⟨u, -, ho⟩
      · obtain ⟨heval, haccount⟩ := ih hmore
        refine ⟨(Body.alternative_of_failed hfree hu).trans heval, ?_⟩
        calc account rules k (choice (e :: before ++ after)) s
          _ = account rules k e s ++ account rules k (choice (before ++ after)) u :=
            Account.alternative_of_failed hfree hu
          _ = account rules k e s ++ account rules k (choice before) u ++
                account rules k (choice after) t := by rw [haccount, List.append_assoc]
          _ = account rules k (choice (e :: before)) s ++ account rules k (choice after) t :=
            congrArg (· ++ _) (Account.alternative_of_failed hfree hu).symm
      · cases ho

/-- **A choice matches with the first alternative that does**, from where the ones before it left
the state.  That the parse is not given up is asked before the alternative, and not after it. -/
theorem choice_eq_matched_iff {es : List (Expr R n)} {s t : State R} :
    eval rules k (choice es) s = some (.matched t) ↔
      ∃ before e after u, es = before ++ e :: after ∧
        eval rules k (choice before) s = some (.failed u) ∧ u.isAborted = false ∧
        eval rules k e u = some (.matched t) := by
  induction es generalizing s with
  | nil =>
    refine ⟨fun h => (nomatch Option.some.inj h), ?_⟩
    rintro ⟨before, e, after, u, hes, -⟩
    exact absurd hes.symm (List.append_ne_nil_of_right_ne_nil before (List.cons_ne_nil e after))
  | cons e es ih =>
    constructor
    · intro h
      rcases Body.alternative_eq_some h with ⟨-, ho⟩ | ⟨hfree, h⟩
      · cases ho
      · rcases Body.orElse_eq_some h with ⟨v, hv, hmore⟩ | ⟨v, hv, ho⟩
        · obtain ⟨before, e', after, u, rfl, hbefore, hu, he'⟩ := ih.1 hmore
          exact ⟨e :: before, e', after, u, rfl,
            (Body.alternative_of_failed hfree hv).trans hbefore, hu, he'⟩
        · obtain rfl := Outcome.matched.inj ho
          exact ⟨[], e, es, s, rfl, rfl, hfree, Body.sequence_eq_matched_iff.1 hv⟩
    · rintro ⟨before, e', after, u, hes, hbefore, hu, he'⟩
      rw [hes, (choice_append_of_failed hbefore _).1]
      exact Body.alternative_of_matched hu he'

theorem Primitive.heeding {e : Expr R n} (he : e.Primitive) (hsequence : ∀ a, e ≠ .sequence a)
    (hchoice : ∀ es, e ≠ Expr.choice es) : Body.Heeding (eval rules k e) := by
  cases he with
  | abort e => exact Body.heeding_abort e
  | pattern p => exact Body.heeding_pattern p
  | written notated => exact Body.heeding_written notated
  | sequence a => exact absurd rfl (hsequence a)
  | choice es => exact absurd rfl (hchoice es)
  | repeated bounds a => exact Body.heeding_repeated bounds _
  | many a => exact Body.heeding_repeated .any _
  | optional a => exact Body.heeding_repeated .optional _
  | rule tag a => exact Body.heeding_rule tag _

/-- **Which primitives match although the parse is given up.**  On a state given up every primitive
but a sequence fails and changes nothing.  Primitives other than sequences and choices never
match with the parse given up, whatever their parts do.  A sequence matches just when its body
does, with the same state; and a choice just when an alternative does that was begun before the
parse was given up, with the same state. -/
theorem primitives_given_up (rules : Rules R n) (k : Nat) :
    (∀ (e : Expr R n) (s : State R), e.Primitive → (∀ a, e ≠ .sequence a) → s.isAborted = true →
        eval rules k e s = some (.failed s)) ∧
      (∀ (e : Expr R n) (s t : State R), e.Primitive → (∀ a, e ≠ .sequence a) →
        (∀ es, e ≠ choice es) → eval rules k e s = some (.matched t) → t.isAborted = false) ∧
      (∀ (a : Expr R n) (s t : State R),
        eval rules k (.sequence a) s = some (.matched t) ↔ eval rules k a s = some (.matched t)) ∧
      ∀ (es : List (Expr R n)) (s t : State R),
        eval rules k (choice es) s = some (.matched t) ↔
          ∃ before e after u, es = before ++ e :: after ∧
            eval rules k (choice before) s = some (.failed u) ∧ u.isAborted = false ∧
            eval rules k e u = some (.matched t) := by
  refine ⟨fun e s he hsequence hs => ?_, fun e s t he hsequence hchoice h => ?_,
    fun a s t => Body.sequence_eq_matched_iff, fun es s t => choice_eq_matched_iff⟩
  · by_cases hchoice : ∃ es, e = choice es
    · obtain ⟨es, rfl⟩ := hchoice
      exact choice_of_isAborted hs
    · exact (he.heeding hsequence (not_exists.1 hchoice)).fails hs
  · exact (he.heeding hsequence hchoice).free h

/-- A rule on a state given up, whose body would match there, and on one that is not: the
hypotheses of `primitives_given_up` are satisfiable. -/
theorem primitives_given_up_rule :
    let rules : Rules Unit 0 := Fin.elim0
    let e : Expr Unit 0 := .rule () .succeed
    let s : State Unit := .start ['a'] .standard
    let given := s.abort (.unknownRule ['n'])
    e.Primitive ∧ given.isAborted = true ∧ eval rules 0 e given = some (.failed given) ∧
      ∃ t, eval rules 0 e s = some (.matched t) ∧ t.isAborted = false := by
  intro rules e s given
  have he : e.Primitive := .rule () _
  have hsequence : ∀ a, e ≠ .sequence a := fun a h => nomatch h
  have hchoice (es : List (Expr Unit 0)) : Expr.rule () .succeed ≠ choice es := by
    intro h
    cases es <;> cases h
  have hgiven : given.isAborted = true := s.isAborted_abort _
  obtain ⟨t, ht⟩ : ∃ t, eval rules 0 e s = some (.matched t) := ⟨_, rfl⟩
  obtain ⟨hfails, hfree, -⟩ := primitives_given_up rules 0
  exact ⟨he, hgiven, hfails e given he hsequence hgiven, t, ht,
    hfree e s t he hsequence hchoice ht⟩

/-- A choice matches whose alternative gives the parse up and recovers, and a sequence matches on
the state that this leaves. -/
theorem sequence_matches_given_up :
    let rules : Rules Unit 0 := Fin.elim0
    ∃ t u : State Unit,
      eval rules 0 (choice [.recover (.abort (.unknownRule ['m']))]) (.start ['a'] .standard) =
          some (.matched t) ∧
        t.isAborted = true ∧ eval rules 0 (.sequence (chain [.succeed])) t = some (.matched u) ∧
        u.isAborted = true :=
  ⟨_, _, rfl, rfl, rfl, rfl⟩

end Expr
end Descent
