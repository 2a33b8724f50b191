/-
# The furthest failure

Of all the terminals that fail while a parse runs, in branches that were given up as well as
in those that came to something, one is remembered: the first of those at the greatest offset.
What is kept of it is its offset and, when tracing, the rules that were active there.

The failures are those of the account, in its order (`Moment.failures`), and the one to keep is
their `List.argmax`, which takes the first of several greatest (`Diagnostics.Keeps`).  A failure
is compared with the one that is kept alone, and never with the cursor, so that going back with
the cursor does not lose it; and what was kept is a maximum of the failures so far, so that one
more of them is one step of `argmax` (`Diagnostics.Keeps.recordFailure`).  All other moments
leave the record as it is.

| answer of a parse that fails | where no terminal failed | else |
| --- | --- | --- |
| offset | 0 | that of the failure |
| stack | none | that of the failure, when tracing |
-/

import Mathlib.Data.List.MinMax
import Descent.Proofs.GivenUp

namespace Descent

variable {R : Type}

/-- A terminal that failed: where, and with which rules active, the outermost first. -/
structure Failure (R : Type) where
  offset : Nat
  stack : List R
  deriving DecidableEq, Repr

/-- The first of the failures at the greatest offset, with its stack when tracing. -/
def Failure.furthest? (tracing : Bool) (failures : List (Failure R)) : Option (Furthest R) :=
  (failures.argmax offset).map fun f => ⟨f.offset, if tracing then f.stack else []⟩

namespace Moment

/-- The failure of a terminal. -/
def failure? : Moment R → Option (Failure R)
  | missed s => some ⟨s.offset, s.diagnostics.stack.map Frame.rule⟩
  | entered _ | refused _ | raised _ _ => none

/-- The failures of terminals, from first to last. -/
def failures (ms : List (Moment R)) : List (Failure R) := ms.filterMap failure?

theorem failures_append (ms ms' : List (Moment R)) :
    failures (ms ++ ms') = failures ms ++ failures ms' := List.filterMap_append

end Moment

namespace Diagnostics

/-- Of these failures the record has kept the first one at the greatest offset. -/
structure Keeps (tracing : Bool) (failures : List (Failure R)) (d : Diagnostics R) : Prop where
  isTracing : d.isTracing = tracing
  furthest : d.furthest = Failure.furthest? tracing failures

variable {tracing : Bool} {d d' : Diagnostics R} {failures : List (Failure R)}

theorem keeps_new (tracing : Bool) : Keeps tracing [] (new tracing : Diagnostics R) where
  isTracing := by cases tracing <;> rfl
  furthest := rfl

theorem Keeps.congr (h : d.Keeps tracing failures) (hlog : d'.isTracing = d.isTracing)
    (hfurthest : d'.furthest = d.furthest) : d'.Keeps tracing failures :=
  ⟨hlog.trans h.isTracing, hfurthest.trans h.furthest⟩

theorem isTracing_note (d : Diagnostics R) (event : Event R) :
    (d.note event).isTracing = d.isTracing := Option.isSome_map

theorem isTracing_recordFailure (d : Diagnostics R) (offset : Nat) :
    (d.recordFailure offset).isTracing = d.isTracing := by
  unfold recordFailure
  split <;> rfl

/-- **One failure more.**  It is kept if it is further than the one kept so far, and so than all. -/
theorem Keeps.recordFailure (h : d.Keeps tracing failures) (offset : Nat) :
    (d.recordFailure offset).Keeps tracing
      (failures ++ [⟨offset, d.stack.map Frame.rule⟩]) where
  isTracing := (d.isTracing_recordFailure offset).trans h.isTracing
  furthest := by
    have hkept := h.furthest
    obtain rfl := h.isTracing
    unfold Failure.furthest? at hkept ⊢
    rw [List.argmax_concat]
    cases hmax : failures.argmax Failure.offset with
    | none =>
      rw [hmax] at hkept
      have hnew : d.hasReached offset = false := by
        rw [hasReached, hkept]
        rfl
      rw [Diagnostics.recordFailure, hnew]
      rfl
    | some f =>
      rw [hmax] at hkept
      have hreached : d.hasReached offset = decide (offset ≤ f.offset) := by
        rw [hasReached, hkept]
        rfl
      rw [Diagnostics.recordFailure, hreached]
      by_cases hlt : f.offset < offset
      · have hnot : ¬offset ≤ f.offset := Nat.not_le_of_lt hlt
        simp only [hnot, hlt, decide_false, Bool.false_eq_true, if_false, if_true, Option.map_some]
      · have hle : offset ≤ f.offset := Nat.le_of_not_lt hlt
        simp only [hle, hlt, decide_true, if_true, if_false]
        exact hkept

end Diagnostics

/-- At each of these moments the record has kept the furthest failure, of those in the past and
those among the moments before it. -/
def Moment.Kept (tracing : Bool) (past : List (Failure R)) : List (Moment R) → Prop
  | [] => True
  | m :: ms => m.state.diagnostics.Keeps tracing past ∧ Kept tracing (past ++ failures [m]) ms

namespace Moment

variable {tracing : Bool} {past : List (Failure R)}

theorem kept_append {ms ms' : List (Moment R)} :
    Kept tracing past (ms ++ ms') ↔
      Kept tracing past ms ∧ Kept tracing (past ++ failures ms) ms' := by
  induction ms generalizing past with
  | nil =>
    have hpast : past ++ failures ([] : List (Moment R)) = past := List.append_nil past
    rw [List.nil_append, Kept, hpast, true_and]
  | cons m ms ih =>
    have hpast : past ++ failures (m :: ms) = past ++ failures [m] ++ failures ms := by
      rw [List.append_assoc, ← failures_append]
      rfl
    rw [List.cons_append, Kept, Kept, ih, hpast, and_assoc]

theorem kept_singleton {m : Moment R} :
    Kept tracing past [m] ↔ m.state.diagnostics.Keeps tracing past := by
  rw [Kept, Kept, and_true]

end Moment

/-- **The record keeps the furthest failure**, at each moment that of the failures before it: if it
does at first, of failures in the past, then it does ever after. -/
theorem composing_keeps (tracing : Bool) : Composing fun (s : State R) ms t =>
    ∀ past, s.diagnostics.Keeps tracing past →
      t.diagnostics.Keeps tracing (past ++ Moment.failures ms) ∧ Moment.Kept tracing past ms where
  nothing := fun s past hs => ⟨(List.append_nil past).symm ▸ hs, trivial⟩
  followed := by
    intro s t u ms ms' _ _ hfirst hlater past hs
    obtain ⟨ht, hms⟩ := hfirst past hs
    obtain ⟨hu, hms'⟩ := hlater _ ht
    rw [Moment.failures_append, ← List.append_assoc]
    exact ⟨hu, Moment.kept_append.2 ⟨hms, hms'⟩⟩
  took := fun _ past hs => ⟨(List.append_nil past).symm ▸ hs, trivial⟩
  missed := fun {s} _ past hs => ⟨hs.recordFailure s.offset, Moment.kept_singleton.2 hs⟩
  raised := fun _ _ past hs => ⟨(List.append_nil past).symm ▸ hs, Moment.kept_singleton.2 hs⟩
  refused := fun _ _ past hs => ⟨(List.append_nil past).symm ▸ hs, Moment.kept_singleton.2 hs⟩
  rolledBack := fun _ h => h
  leftMatched := by
    intro s t ms tag _ _ _ h _ past hs
    have henter : (s.enter tag).diagnostics.Keeps tracing past :=
      hs.congr (Diagnostics.isTracing_note _ _) rfl
    obtain ⟨ht, hms⟩ := h past henter
    exact ⟨ht.congr (Diagnostics.isTracing_note _ _) rfl, henter,
      (List.append_nil past).symm ▸ hms⟩
  leftFailed := by
    intro s t ms tag _ _ _ h past hs
    have henter : (s.enter tag).diagnostics.Keeps tracing past :=
      hs.congr (Diagnostics.isTracing_note _ _) rfl
    obtain ⟨ht, hms⟩ := h past henter
    exact ⟨ht.congr (Diagnostics.isTracing_note _ _) rfl, henter,
      (List.append_nil past).symm ▸ hms⟩

/-- A terminal is tried only where the parse is not given up. -/
theorem composing_missed : Composing fun (_ : State R) ms _ =>
    ∀ u, .missed u ∈ ms → u.isAborted = false where
  nothing := fun _ _ hu => nomatch hu
  followed := fun _ _ hfirst hlater u hu => (List.mem_append.1 hu).elim (hfirst u) (hlater u)
  took := fun _ _ hu => nomatch hu
  missed := by
    intro s hfree u hu
    obtain rfl := Moment.missed.inj (List.mem_singleton.1 hu)
    exact hfree
  raised := fun _ _ u hu => nomatch List.mem_singleton.1 hu
  refused := fun _ _ u hu => nomatch List.mem_singleton.1 hu
  rolledBack := fun _ h => h
  leftMatched := fun _ _ _ _ h _ u hu =>
    h u ((List.mem_cons.1 hu).resolve_left fun h => nomatch h)
  leftFailed := fun _ _ _ _ h u hu =>
    h u ((List.mem_cons.1 hu).resolve_left fun h => nomatch h)

namespace Parse

variable [Tag R]

/-- What an answer tells of the furthest failure: its offset, and the names of the rules. -/
def told : Option (Furthest R) → Nat × List Text
  | some f => (f.offset, f.stack.map Tag.name)
  | none => (0, [])

/-- A body that failed, with the parse not given up, is all that is answered with `noMatch`. -/
theorem conclude_eq_noMatch_iff {o : Outcome R} (hfree : o.state.isAborted = false)
    {name input rule : Text} {offset : Nat} {stack : List Text}
    {trace : Option (List (Event Text))} :
    conclude name input o = .error (.noMatch rule offset stack trace) ↔
      o.isMatched = false ∧ rule = name ∧ (offset, stack) = told o.state.diagnostics.furthest ∧
        trace = o.state.diagnostics.events?.map (List.map (Event.map Tag.name)) := by
  have hnoMatch : noMatch name o.state.diagnostics =
      .noMatch name (told o.state.diagnostics.furthest).1 (told o.state.diagnostics.furthest).2
        (o.state.diagnostics.events?.map (List.map (Event.map Tag.name))) := by
    unfold noMatch
    cases o.state.diagnostics.furthest <;> rfl
  rw [conclude_of_free hfree]
  cases o.isMatched with
  | true =>
    rw [if_pos rfl]
    refine ⟨fun h => ?_, fun h => nomatch h.1⟩
    split at h <;> cases h
  | false =>
    rw [if_neg Bool.false_ne_true, hnoMatch, Except.error.injEq, Error.noMatch.injEq]
    constructor
    · rintro ⟨rfl, rfl, rfl, rfl⟩
      exact ⟨rfl, rfl, rfl, rfl⟩
    · rintro ⟨-, rfl, htold, rfl⟩
      exact ⟨rfl, congrArg Prod.fst htold.symm, congrArg Prod.snd htold.symm, rfl⟩

end Parse

namespace Expr

variable [DecidableEq R] {n : Nat} {rules : Rules R n}

/-- What is kept at the end, and at each moment, of the failures until then. -/
theorem furthest_of_trail {c : Cursor} {config : Config} {es : List (Expr R n)}
    {outcomes : List (Outcome R)} (h : trail rules es (.ofCursor c config) = some outcomes) :
    ((State.ofCursor c config).after outcomes).diagnostics.furthest =
        Failure.furthest? config.trace (Moment.failures (history rules es (.ofCursor c config))) ∧
      ∀ before m after, history rules es (.ofCursor c config) = before ++ m :: after →
        m.state.diagnostics.furthest =
          Failure.furthest? config.trace (Moment.failures before) := by
  obtain ⟨hlast, hmoments⟩ := (composing_keeps config.trace).trail h []
    (Diagnostics.keeps_new config.trace)
  refine ⟨hlast.furthest, fun before m after hsplit => ?_⟩
  rw [hsplit] at hmoments
  obtain ⟨-, hm, -⟩ := Moment.kept_append.1 hmoments
  exact hm.furthest

/-- A parse that is not given up answers with `noMatch` just when its body fails, and tells the
furthest failure. -/
theorem run_eq_noMatch_iff [Tag R] {e : Expr R n} {input : Text} {config : Config} {o : Outcome R}
    (ho : body rules e (.start input config) = some o) (hfree : o.state.isAborted = false)
    {name rule : Text} {offset : Nat} {stack : List Text} {trace : Option (List (Event Text))} :
    Parse.run name (body rules e) input config =
        some (.error (.noMatch rule offset stack trace)) ↔
      o.isMatched = false ∧ rule = name ∧
        (offset, stack) = Parse.told (Failure.furthest? config.trace
          (Moment.failures (moments rules e (.start input config)))) ∧
        trace = o.state.diagnostics.events?.map (List.map (Event.map Tag.name)) := by
  obtain ⟨hkeeps, -⟩ := (composing_keeps config.trace).eval rules ho []
    (Diagnostics.keeps_new config.trace)
  have hfurthest : o.state.diagnostics.furthest = Failure.furthest? config.trace
      (Moment.failures (moments rules e (.start input config))) := hkeeps.furthest
  rw [Parse.run, ho, Option.map_some, Option.some.injEq, Parse.conclude_eq_noMatch_iff hfree,
    hfurthest]

/-- **The furthest failure is the first one at the greatest offset of all.**  Expressions that are
applied one after another leave, of all failures of terminals in the order in which they happened,
the first one that is furthest, with the rules active there when tracing; and so does the record at
each moment, of the failures until then.  All these failures come while the parse is not given up.
No evaluation makes the record go back, or changes it once the parse is given up.  A parse by name
or by tag that is not given up answers with `noMatch` just when its body fails, and then with the
offset and the rules of that failure. -/
theorem furthest_is_first_greatest [Tag R] (rules : Rules R n) :
    (∀ (c : Cursor) (config : Config) (es : List (Expr R n)) (outcomes : List (Outcome R)),
        let s : State R := .ofCursor c config
        trail rules es s = some outcomes →
          (s.after outcomes).diagnostics.furthest =
              Failure.furthest? config.trace (Moment.failures (history rules es s)) ∧
            (∀ before m after, history rules es s = before ++ m :: after →
              m.state.diagnostics.furthest =
                Failure.furthest? config.trace (Moment.failures before)) ∧
            ∀ u, .missed u ∈ history rules es s → u.isAborted = false) ∧
      (∀ (k : Nat) (e : Expr R n) (s : State R) (o : Outcome R), eval rules k e s = some o →
        (∀ f, s.diagnostics.furthest = some f →
            ∃ f', o.state.diagnostics.furthest = some f' ∧ f.offset ≤ f'.offset) ∧
          (s.isAborted = true → o.state.diagnostics.furthest = s.diagnostics.furthest)) ∧
      ∀ (e : Expr R n) (input : Text) (config : Config) (o : Outcome R),
        body rules e (.start input config) = some o → o.state.isAborted = false →
          ∀ (rule : Text) (offset : Nat) (stack : List Text) (trace : Option (List (Event Text))),
            let told := (offset, stack) = Parse.told (Failure.furthest? config.trace
                (Moment.failures (moments rules e (.start input config)))) ∧
              trace = o.state.diagnostics.events?.map (List.map (Event.map Tag.name))
            (∀ (g : Grammar R) (name : Text), g.get name = .ok (body rules e) →
              (g.parseWith name input config =
                  some (.error (.noMatch rule offset stack trace)) ↔
                o.isMatched = false ∧ rule = name ∧ told)) ∧
            ∀ (bodyOf : R → Body R) (tag : R), bodyOf tag = body rules e →
              (Parse.withTag bodyOf tag input config =
                  some (.error (.noMatch rule offset stack trace)) ↔
                o.isMatched = false ∧ rule = Tag.name tag ∧ told) := by
  refine ⟨fun c config es outcomes h => ?_, fun k e s o ho => ⟨fun f hf => ?_, fun hs => ?_⟩,
    fun e input config o ho hfree rule offset stack trace => ⟨fun g name hg => ?_,
      fun bodyOf tag htag => ?_⟩⟩
  · obtain ⟨hlast, hmoments⟩ := furthest_of_trail h
    exact ⟨hlast, hmoments, composing_missed.trail h⟩
  · have hreached := (eval_extends rules k e ho).diagnostics.furthest f.offset
      (Diagnostics.hasReached_iff.2 ⟨f, hf, Nat.le_refl _⟩)
    exact Diagnostics.hasReached_iff.1 hreached
  · rw [Body.closed_freezing.eval rules k e hs ho]
  · rw [Grammar.parseWith, hg]
    exact run_eq_noMatch_iff ho hfree
  · rw [Parse.withTag, htag]
    exact run_eq_noMatch_iff ho hfree

/-- Two alternatives fail at one offset inside different rules, and a third one fails before it: the
hypotheses of `furthest_is_first_greatest` are satisfiable where the first of several is to be
kept, and the cursor has gone back. -/
theorem furthest_is_first_greatest_tie :
    let _ : Tag Bool := ⟨fun b => if b then ['t'] else ['f']⟩
    let rules : Rules Bool 0 := Fin.elim0
    let one (c : Char) : Expr Bool 0 := .pattern (.character c)
    let e : Expr Bool 0 :=
      choice [.andThen (one 'a') (.rule true (one 'x')), .andThen (one 'a') (.rule false (one 'y')),
        one 'z']
    let config : Config := ⟨true, 9⟩
    let s : State Bool := .start ['a', 'b'] config
    ∃ (g : Grammar Bool) (o p : Outcome Bool), g.get ['g'] = .ok (body rules e) ∧
      trail rules [e] s = some [o] ∧ o.isMatched = false ∧ o.state.isAborted = false ∧
      Moment.failures (history rules [e] s) = [⟨1, [true]⟩, ⟨1, [false]⟩, ⟨0, []⟩] ∧
      (s.after [o]).diagnostics.furthest = some ⟨1, [true]⟩ ∧
      eval rules 0 e (o.state.abort (.unknownRule ['m'])) = some p ∧
      p.state.diagnostics.furthest = some ⟨1, [true]⟩ ∧
      g.parseWith ['g'] ['a', 'b'] config = some (.error (.noMatch ['g'] 1 [['t']]
        (some [.enter ['t'] 1, .leave ['t'] 1 1 false, .enter ['f'] 1, .leave ['f'] 1 1 false]))) ∧
      Parse.withTag (fun _ => body rules e) true ['a', 'b'] config =
        some (.error (.noMatch ['t'] 1 [['t']]
          (some [.enter ['t'] 1, .leave ['t'] 1 1 false, .enter ['f'] 1,
            .leave ['f'] 1 1 false]))) := by
  intro _ rules one e config s
  let g : Grammar Bool := ⟨[(⟨['g']⟩, body rules e)]⟩
  have hg : g.get ['g'] = .ok (body rules e) := rfl
  obtain ⟨o, ho, hbody, hfailed, hfree, hevents⟩ : ∃ o, trail rules [e] s = some [o] ∧
      body rules e s = some o ∧ o.isMatched = false ∧ o.state.isAborted = false ∧
      o.state.diagnostics.events? = some [.enter true 1, .leave true 1 1 false, .enter false 1,
        .leave false 1 1 false] := ⟨_, rfl, rfl, rfl, rfl, rfl⟩
  have hfailures : Moment.failures (history rules [e] s) =
      [⟨1, [true]⟩, ⟨1, [false]⟩, ⟨0, []⟩] := rfl
  have hmoments : Moment.failures (moments rules e s) =
      [⟨1, [true]⟩, ⟨1, [false]⟩, ⟨0, []⟩] := rfl
  obtain ⟨htrail, heval, hanswers⟩ := furthest_is_first_greatest rules
  have hkept : (s.after [o]).diagnostics.furthest =
      Failure.furthest? true (Moment.failures (history rules [e] s)) :=
    (htrail (.start ['a', 'b']) config [e] [o] ho).1
  rw [hfailures] at hkept
  obtain ⟨p, hp⟩ : ∃ p, eval rules 0 e (o.state.abort (.unknownRule ['m'])) = some p := by
    obtain rfl := Option.some.inj hbody
    exact ⟨_, rfl⟩
  have hfrozen : p.state.diagnostics.furthest = o.state.diagnostics.furthest :=
    (heval 0 e _ p hp).2 (o.state.isAborted_abort _)
  obtain ⟨hname, -⟩ := hanswers e ['a', 'b'] config o hbody hfree ['g'] 1 [['t']]
    (some [.enter ['t'] 1, .leave ['t'] 1 1 false, .enter ['f'] 1, .leave ['f'] 1 1 false])
  obtain ⟨-, htag⟩ := hanswers e ['a', 'b'] config o hbody hfree ['t'] 1 [['t']]
    (some [.enter ['t'] 1, .leave ['t'] 1 1 false, .enter ['f'] 1, .leave ['f'] 1 1 false])
  refine ⟨g, o, p, hg, ho, hfailed, hfree, hfailures, hkept, hp, hfrozen.trans hkept,
    (hname g ['g'] hg).2 ⟨hfailed, rfl, ?_, ?_⟩,
    (htag (fun _ => body rules e) true rfl).2 ⟨hfailed, rfl, ?_, ?_⟩⟩
  · rw [hmoments]
    rfl
  · rw [hevents]
    rfl
  · rw [hmoments]
    rfl
  · rw [hevents]
    rfl

end Expr

end Descent
