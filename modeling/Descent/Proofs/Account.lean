/-
# What happens during an evaluation

An outcome says where a body ends.  Some questions are about the way there: which
terminals failed, which rules were entered, for which errors the parse was to be given
up, and in what order.  An account answers them.  It lists the moments of an
application, each with the state in which it came:

| moment | when | state afterwards |
| --- | --- | --- |
| `missed s` | a pattern does not stand at the cursor | the failure is noted |
| `entered s` | a rule is entered | `s` itself, inside the rule |
| `refused s` | a rule would be one too many at once | given up |
| `raised e s` | the grammar says so, or a notation or bounds are bad | given up at the latest |

An account has no evaluation of its own.  It asks the body of a part for its outcome, and
goes on to the next part where the body of the whole does (`Account.andThen` and so on).

Two ways lead from the operators to all expressions.  A property of a body together with
its account that no operator loses holds of every expression (`Account.Closed.eval`).  And
a relation between a first state, the moments that follow, and a last state holds of every
evaluation, if it holds of each moment and of moments one after another (`Composing.eval`);
and so it does of evaluations one after another (`Composing.trail`).

The errors that are raised are those that the grammar names, and those of notations and
bounds that are bad (`Expr.raises_of_mem_account`).
-/

import Descent.Proofs.Extension

namespace Descent

variable {R : Type}

/-- Something that happens while a body is applied, with the state in which it does. -/
inductive Moment (R : Type) where
  /-- A pattern did not stand at the cursor. -/
  | missed (s : State R)
  /-- A rule was entered, and its body starts. -/
  | entered (s : State R)
  /-- A rule was not entered, as too many are active. -/
  | refused (s : State R)
  /-- The parse was to be given up for an error of the grammar. -/
  | raised (e : Error) (s : State R)

namespace Moment

/-- The state in which it happens. -/
def state : Moment R → State R
  | missed s | entered s | refused s | raised _ s => s

/-- The error for which the parse was to be given up. -/
def error? : Moment R → Option Error
  | missed _ | entered _ => none
  | refused s => some (.recursionLimit s.maxDepth s.offset)
  | raised e _ => some e

/-- The errors for which the parse was to be given up, from first to last. -/
def errors (ms : List (Moment R)) : List Error := ms.filterMap error?

/-- The same moment in another state. -/
def map (f : State R → State R) : Moment R → Moment R
  | missed s => missed (f s)
  | entered s => entered (f s)
  | refused s => refused (f s)
  | raised e s => raised e (f s)

theorem errors_append (ms ms' : List (Moment R)) :
    errors (ms ++ ms') = errors ms ++ errors ms' := List.filterMap_append

theorem mem_errors_iff {e : Error} {ms : List (Moment R)} :
    e ∈ errors ms ↔ ∃ m ∈ ms, m.error? = some e := List.mem_filterMap

end Moment

/-- What happens when a body is applied to a state, from first to last. -/
abbrev Account (R : Type) := State R → List (Moment R)

namespace Account

/-- Nothing happens. -/
def nothing : Account R := fun _ => []

def abort (e : Error) : Account R := fun s => [.raised e s]

def pattern (p : Pattern) : Account R := fun s =>
  if s.isAborted then []
  else match p.match? s.cursor with
    | some _ => []
    | none => [.missed s]

def written (notated : Text) : Account R := fun s =>
  match Notation.Terminal.read notated with
  | .ok terminal => pattern (.terminal terminal) s
  | .error cause => abort (.badNotation notated cause) s

/-- What happens in one body and, where it matched, in another one. -/
def andThen (a : Body R) (α β : Account R) : Account R := fun s =>
  match a s with
  | some (.matched t) => α s ++ β t
  | _ => α s

/-- What happens in one body and, where it failed, in another one. -/
def orElse (a : Body R) (α β : Account R) : Account R := fun s =>
  match a s with
  | some (.failed t) => α s ++ β t
  | _ => α s

def alternative (a : Body R) (α β : Account R) : Account R := fun s =>
  if s.isAborted then [] else orElse (Body.sequence a) α β s

def occurrences (bounds : Notation.Repeat) (a : Body R) (α : Account R) :
    (attempts count : Nat) → Account R
  | attempts, count, s =>
    if Body.isFull bounds count || s.isAborted then []
    else match attempts with
      | 0 => []
      | attempts + 1 =>
        match Body.sequence a s with
        | some (.matched t) =>
          if Body.mayStop bounds (count + 1) && t.offset == s.offset then α s
          else α s ++ occurrences bounds a α attempts (count + 1) t
        | _ => α s

def repeated (bounds : Notation.Repeat) (a : Body R) (α : Account R) : Account R := fun s =>
  match bounds.validate with
  | .error cause => abort (.badNotation bounds.render cause) s
  | .ok () => occurrences bounds a α (Body.attempts bounds s.rest) 0 s

def rule (tag : R) (α : Account R) : Account R := fun s =>
  if s.isAborted then []
  else if s.maxDepth ≤ s.diagnostics.depth then [.refused s]
  else .entered (s.enter tag) :: α (s.enter tag)

section Turns

variable {a : Body R} {α : Account R} {s t : State R} {bounds : Notation.Repeat} {count : Nat}

/-! One turn of a loop, for each way in which it can go. -/

theorem occurrences_of_stop (hstop : Body.isFull bounds count = true ∨ s.isAborted = true)
    (attempts : Nat) : occurrences bounds a α attempts count s = [] := by
  unfold occurrences
  rw [if_pos (Bool.or_eq_true_iff.2 hstop)]

theorem occurrences_of_failed (hroom : Body.isFull bounds count = false)
    (hfree : s.isAborted = false) (h : Body.sequence a s = some (.failed t)) (left : Nat) :
    occurrences bounds a α (left + 1) count s = α s := by
  rw [occurrences, hroom, hfree]
  simp only [Bool.or_self, Bool.false_eq_true, if_false, h]

theorem occurrences_of_last (hroom : Body.isFull bounds count = false)
    (hfree : s.isAborted = false) (h : Body.sequence a s = some (.matched t))
    (hmay : Body.mayStop bounds (count + 1) = true) (hoff : t.offset = s.offset) (left : Nat) :
    occurrences bounds a α (left + 1) count s = α s := by
  rw [occurrences, hroom, hfree]
  simp only [Bool.or_self, Bool.false_eq_true, if_false, h, hmay, hoff, beq_self_eq_true,
    Bool.and_self, if_true]

theorem occurrences_of_onward (hroom : Body.isFull bounds count = false)
    (hfree : s.isAborted = false) (h : Body.sequence a s = some (.matched t))
    (hon : ¬(Body.mayStop bounds (count + 1) = true ∧ t.offset = s.offset)) (left : Nat) :
    occurrences bounds a α (left + 1) count s =
      α s ++ occurrences bounds a α left (count + 1) t := by
  have hgo : ¬(Body.mayStop bounds (count + 1) && t.offset == s.offset) = true := fun hend =>
    hon ((Bool.and_eq_true_iff.1 hend).imp_right beq_iff_eq.1)
  conv => lhs; rw [occurrences]
  simp only [hroom, hfree, Bool.or_self, Bool.false_eq_true, if_false, h, if_neg hgo]

end Turns

section Parts

variable {a b : Body R} {α β : Account R} {s t : State R}

/-! What happens in a part that is applied happens in the whole. -/

theorem subset_andThen_left : α s ⊆ andThen a α β s := by
  unfold andThen
  split
  · exact List.subset_append_left _ _
  · exact List.Subset.refl _

theorem subset_andThen_right (h : a s = some (.matched t)) : β t ⊆ andThen a α β s := by
  rw [andThen, h]
  exact List.subset_append_right _ _

theorem subset_orElse_left : α s ⊆ orElse a α β s := by
  unfold orElse
  split
  · exact List.subset_append_left _ _
  · exact List.Subset.refl _

theorem subset_orElse_right (h : a s = some (.failed t)) : β t ⊆ orElse a α β s := by
  rw [orElse, h]
  exact List.subset_append_right _ _

theorem alternative_of_isAborted (hs : s.isAborted = true) : alternative a α β s = [] := by
  rw [alternative, if_pos hs]

theorem alternative_of_matched (hfree : s.isAborted = false)
    (h : Body.sequence a s = some (.matched t)) : alternative a α β s = α s := by
  rw [alternative, if_neg (Bool.eq_false_iff.1 hfree), orElse, h]

theorem alternative_of_failed (hfree : s.isAborted = false)
    (h : Body.sequence a s = some (.failed t)) : alternative a α β s = α s ++ β t := by
  rw [alternative, if_neg (Bool.eq_false_iff.1 hfree), orElse, h]

theorem subset_alternative_left (hfree : s.isAborted = false) : α s ⊆ alternative a α β s := by
  rw [alternative, if_neg (Bool.eq_false_iff.1 hfree)]
  exact subset_orElse_left

theorem subset_alternative_right (hfree : s.isAborted = false)
    (h : Body.sequence a s = some (.failed t)) : β t ⊆ alternative a α β s := by
  rw [alternative_of_failed hfree h]
  exact List.subset_append_right _ _

theorem subset_occurrences_now {bounds : Notation.Repeat} {left count : Nat}
    (hroom : Body.isFull bounds count = false) (hfree : s.isAborted = false) :
    α s ⊆ occurrences bounds a α (left + 1) count s := by
  rw [occurrences, hroom, hfree]
  simp only [Bool.or_self, Bool.false_eq_true, if_false]
  split
  · split
    · exact List.Subset.refl _
    · exact List.subset_append_left _ _
  · exact List.Subset.refl _

theorem subset_occurrences_later {bounds : Notation.Repeat} {left count : Nat}
    (hroom : Body.isFull bounds count = false) (hfree : s.isAborted = false)
    (h : Body.sequence a s = some (.matched t))
    (hon : ¬(Body.mayStop bounds (count + 1) && t.offset == s.offset) = true) :
    occurrences bounds a α left (count + 1) t ⊆ occurrences bounds a α (left + 1) count s := by
  have hgo : ¬(Body.mayStop bounds (count + 1) = true ∧ t.offset = s.offset) := fun hend =>
    hon (Bool.and_eq_true_iff.2 ⟨hend.1, beq_iff_eq.2 hend.2⟩)
  rw [occurrences_of_onward hroom hfree h hgo]
  exact List.subset_append_right _ _

theorem rule_of_full {tag : R} (hfree : s.isAborted = false)
    (hfull : s.maxDepth ≤ s.diagnostics.depth) : rule tag α s = [.refused s] := by
  rw [rule, if_neg (Bool.eq_false_iff.1 hfree), if_pos hfull]

theorem rule_of_room {tag : R} (hfree : s.isAborted = false)
    (hroom : s.diagnostics.depth < s.maxDepth) :
    rule tag α s = .entered (s.enter tag) :: α (s.enter tag) := by
  rw [rule, if_neg (Bool.eq_false_iff.1 hfree), if_neg (Nat.not_le_of_lt hroom)]

theorem subset_rule {tag : R} (hfree : s.isAborted = false)
    (hroom : s.diagnostics.depth < s.maxDepth) : α (s.enter tag) ⊆ rule tag α s := by
  rw [rule_of_room hfree hroom]
  exact List.subset_cons_self _ _

end Parts
end Account

namespace Expr

variable [DecidableEq R] {n : Nat}

/-- What happens in an expression when rule `i` has the body `env i` and the account `told i`. -/
def recount (env : Fin n → Body R) (told : Fin n → Account R) : Expr R n → Account R
  | succeed | fail | test _ => Account.nothing
  | abort e => Account.abort e
  | pattern p => Account.pattern p
  | written notated => Account.written notated
  | andThen a b => Account.andThen (denote env a) (recount env told a) (recount env told b)
  | orElse a b => Account.orElse (denote env a) (recount env told a) (recount env told b)
  | recover a | sequence a => recount env told a
  | alternative a b => Account.alternative (denote env a) (recount env told a) (recount env told b)
  | repeated bounds a => Account.repeated bounds (denote env a) (recount env told a)
  | rule tag a => Account.rule tag (recount env told a)
  | ref i => told i

/-- The accounts of the rules when references may nest `k` deep. -/
def told (rules : Rules R n) : (k : Nat) → Fin n → Account R
  | 0, _ => Account.nothing
  | k + 1, i => recount (unfold rules k) (told rules k) (rules i)

/-- What happens when an expression is applied and references may nest `k` deep. -/
def account (rules : Rules R n) (k : Nat) (e : Expr R n) : Account R :=
  recount (unfold rules k) (told rules k) e

/-- What happens when an expression over a table is applied. -/
def moments (rules : Rules R n) (e : Expr R n) : Account R := fun s =>
  account rules (nesting rules e s) e s

/-- What happens when expressions are applied one after another, each to the state that the one
before it left. -/
def history (rules : Rules R n) : List (Expr R n) → Account R
  | [], _ => []
  | e :: es, s => moments rules e s ++
    match body rules e s with
    | some o => history rules es o.state
    | none => []

end Expr

/-- The state that outcomes one after another leave, from a first state on. -/
def State.after (s : State R) : List (Outcome R) → State R
  | [] => s
  | o :: outcomes => o.state.after outcomes

namespace Account

/-- A property of a body and its account that no operator loses. -/
structure Closed [DecidableEq R] (P : Body R → Account R → Prop) : Prop where
  never : P (fun _ => none) nothing
  succeed : P Body.succeed nothing
  fail : P Body.fail nothing
  test : ∀ p : Probe R, P (Body.test (Probe.holds · p)) nothing
  abort : ∀ e, P (Body.abort e) (abort e)
  pattern : ∀ p, P (Body.pattern p) (pattern p)
  andThen : ∀ {a b α β}, P a α → P b β → P (Body.andThen a b) (andThen a α β)
  orElse : ∀ {a b α β}, P a α → P b β → P (Body.orElse a b) (orElse a α β)
  recover : ∀ {a α}, P a α → P (Body.recover a) α
  sequence : ∀ {a α}, P a α → P (Body.sequence a) α
  alternative : ∀ {a b α β}, P a α → P b β → P (Body.alternative a b) (alternative a α β)
  repeated : ∀ bounds {a α}, P a α → P (Body.repeated bounds a) (repeated bounds a α)
  rule : ∀ tag {a α}, P a α → P (Body.rule tag a) (rule tag α)

namespace Closed

variable [DecidableEq R] {n : Nat} {P : Body R → Account R → Prop} (hP : Closed P)

include hP

theorem written (notated : Text) : P (Body.written notated) (Account.written notated) := by
  cases h : Notation.Terminal.read notated with
  | ok terminal =>
    have haccount : Account.written notated = Account.pattern (R := R) (.terminal terminal) := by
      funext s
      rw [Account.written, h]
    rw [Body.written_of_read h, haccount]
    exact hP.pattern _
  | error cause =>
    have haccount : Account.written notated =
        Account.abort (R := R) (.badNotation notated cause) := by
      funext s
      rw [Account.written, h]
    rw [Body.written_of_error h, haccount]
    exact hP.abort _

theorem denote {env : Fin n → Body R} {told : Fin n → Account R} (henv : ∀ i, P (env i) (told i))
    (e : Expr R n) : P (Expr.denote env e) (Expr.recount env told e) := by
  induction e with
  | succeed => exact hP.succeed
  | fail => exact hP.fail
  | test p => exact hP.test p
  | abort e => exact hP.abort e
  | pattern p => exact hP.pattern p
  | written notated => exact hP.written notated
  | andThen a b iha ihb => exact hP.andThen iha ihb
  | orElse a b iha ihb => exact hP.orElse iha ihb
  | recover a ih => exact hP.recover ih
  | sequence a ih => exact hP.sequence ih
  | alternative a b iha ihb => exact hP.alternative iha ihb
  | repeated bounds a ih => exact hP.repeated bounds ih
  | rule tag a ih => exact hP.rule tag ih
  | ref i => exact henv i

theorem unfold (rules : Rules R n) (k : Nat) (i : Fin n) :
    P (Expr.unfold rules k i) (Expr.told rules k i) := by
  induction k generalizing i with
  | zero => exact hP.never
  | succ k ih => exact hP.denote ih (rules i)

/-- **A property that no operator loses holds of every expression and its account.** -/
theorem eval (rules : Rules R n) (k : Nat) (e : Expr R n) :
    P (Expr.eval rules k e) (Expr.account rules k e) :=
  hP.denote (hP.unfold rules k) e

end Closed

end Account

/-- A relation between a state, the moments that follow it, and the state after them: it holds of
each moment by itself, of moments one after another, and of a rule as soon as it holds inside. -/
structure Composing (C : State R → List (Moment R) → State R → Prop) : Prop where
  nothing : ∀ s, C s [] s
  followed : ∀ {s t u ms ms'}, s.Extends t → t.Extends u → C s ms t → C t ms' u → C s (ms ++ ms') u
  took : ∀ {s cursor taken}, s.cursor.Takes taken cursor → C s [] { s with cursor }
  missed : ∀ {s}, s.isAborted = false → C s [.missed s] s.recordFailure
  raised : ∀ e s, C s [.raised e s] (s.abort e)
  refused : ∀ {s}, s.isAborted = false → s.maxDepth ≤ s.diagnostics.depth →
    C s [.refused s] (s.abort (.recursionLimit s.maxDepth s.offset))
  rolledBack : ∀ {s t ms}, s.Extends t → C s ms t → C s ms (t.rollback s.cursor s.found.length)
  leftMatched : ∀ {s t ms} tag, s.isAborted = false → s.diagnostics.depth < s.maxDepth →
    (s.enter tag).Extends t → C (s.enter tag) ms t → t.isAborted = false →
    C s (.entered (s.enter tag) :: ms) (t.leaveMatched tag s.cursor s.found)
  leftFailed : ∀ {s t ms} tag, s.isAborted = false → s.diagnostics.depth < s.maxDepth →
    (s.enter tag).Extends t → C (s.enter tag) ms t →
    C s (.entered (s.enter tag) :: ms) (t.leaveFailed tag s.cursor s.found)

namespace Account

open Body

/-- The body extends the states it is given, and its account leads from them to its outcomes. -/
def Leads (C : State R → List (Moment R) → State R → Prop) (a : Body R) (α : Account R) : Prop :=
  Extending a ∧ ∀ ⦃s o⦄, a s = some o → C s (α s) o.state

variable {C : State R → List (Moment R) → State R → Prop} {a b : Body R} {α β : Account R}

theorem leads_pattern (hC : Composing C) (p : Pattern) : Leads C (Body.pattern p) (pattern p) := by
  refine ⟨extending_pattern p, fun s o h => ?_⟩
  unfold pattern
  rcases pattern_eq_some h with ⟨hab, rfl⟩ | ⟨hfree, cursor, hc, rfl⟩ | ⟨hfree, hc, rfl⟩
  · rw [if_pos hab]
    exact hC.nothing s
  · obtain ⟨taken, -, htaken⟩ := Pattern.match?_eq_some_iff.1 hc
    simp only [hfree, Bool.false_eq_true, if_false, hc]
    exact hC.took htaken
  · simp only [hfree, Bool.false_eq_true, if_false, hc]
    exact hC.missed hfree

theorem leads_andThen (hC : Composing C) (ha : Leads C a α) (hb : Leads C b β) :
    Leads C (Body.andThen a b) (andThen a α β) := by
  refine ⟨extending_andThen ha.1 hb.1, fun s o h => ?_⟩
  unfold andThen
  rcases andThen_eq_some h with ⟨t, hat, hbt⟩ | ⟨t, hat, rfl⟩
  · rw [hat]
    exact hC.followed (ha.1 hat) (hb.1 hbt) (ha.2 hat) (hb.2 hbt)
  · rw [hat]
    exact ha.2 hat

theorem leads_orElse (hC : Composing C) (ha : Leads C a α) (hb : Leads C b β) :
    Leads C (Body.orElse a b) (orElse a α β) := by
  refine ⟨extending_orElse ha.1 hb.1, fun s o h => ?_⟩
  unfold orElse
  rcases orElse_eq_some h with ⟨t, hat, hbt⟩ | ⟨t, hat, rfl⟩
  · rw [hat]
    exact hC.followed (ha.1 hat) (hb.1 hbt) (ha.2 hat) (hb.2 hbt)
  · rw [hat]
    exact ha.2 hat

theorem leads_sequence (hC : Composing C) (ha : Leads C a α) : Leads C (Body.sequence a) α := by
  refine ⟨extending_sequence ha.1, fun s o h => ?_⟩
  rcases sequence_eq_some h with ⟨t, hat, rfl⟩ | ⟨t, hat, rfl⟩
  · exact ha.2 hat
  · exact hC.rolledBack (ha.1 hat) (ha.2 hat)

theorem leads_alternative (hC : Composing C) (ha : Leads C a α) (hb : Leads C b β) :
    Leads C (Body.alternative a b) (alternative a α β) := by
  have helse := leads_orElse hC (leads_sequence hC ha) hb
  refine ⟨closed_extending.alternative ha.1 hb.1, fun s o h => ?_⟩
  unfold alternative
  rcases alternative_eq_some h with ⟨hab, rfl⟩ | ⟨hfree, h⟩
  · rw [if_pos hab]
    exact hC.nothing s
  · rw [if_neg (Bool.eq_false_iff.1 hfree)]
    exact helse.2 h

/-- The account of a repetition follows its loop, one occurrence after another. -/
theorem leads_loop (hC : Composing C) (ha : Leads C a α) {bounds : Notation.Repeat}
    {attempts count total : Nat} {s t : State R} (h : Loop bounds a attempts count s total t) :
    C s (occurrences bounds a α attempts count s) t := by
  have hseq := leads_sequence hC ha
  induction h with
  | @stop attempts count s hstop =>
    rw [occurrences_of_stop hstop]
    exact hC.nothing s
  | failed hroom hfree hs =>
    rw [occurrences_of_failed hroom hfree hs]
    exact hseq.2 hs
  | last hroom hfree hs hmay hoff =>
    rw [occurrences_of_last hroom hfree hs hmay hoff]
    exact hseq.2 hs
  | onward hroom hfree hs hon hmore ih =>
    rw [occurrences_of_onward hroom hfree hs hon]
    exact hC.followed (hseq.1 hs) (hmore.extends ha.1) (hseq.2 hs) ih

theorem leads_repeated (hC : Composing C) (bounds : Notation.Repeat) (ha : Leads C a α) :
    Leads C (Body.repeated bounds a) (repeated bounds a α) := by
  refine ⟨extending_repeated bounds ha.1, fun s o h => ?_⟩
  unfold repeated
  rcases repeated_eq_some h with
    ⟨cause, hcause, rfl⟩ | ⟨hvalid, count, t, ht, ⟨-, -, rfl⟩ | ⟨-, rfl⟩⟩
  · rw [hcause]
    exact hC.raised _ s
  · rw [hvalid]
    exact leads_loop hC ha ht
  · rw [hvalid]
    exact hC.rolledBack (ht.extends ha.1) (leads_loop hC ha ht)

theorem leads_rule (hC : Composing C) (tag : R) (ha : Leads C a α) :
    Leads C (Body.rule tag a) (rule tag α) := by
  refine ⟨extending_rule tag ha.1, fun s o h => ?_⟩
  rcases rule_eq_some h with
    ⟨hab, rfl⟩ | ⟨hfree, hdeep, rfl⟩ | ⟨hfree, hroom, p, hp, ⟨-, hpfree, rfl⟩ | ⟨-, rfl⟩⟩
  · rw [rule, if_pos hab]
    exact hC.nothing s
  · rw [rule_of_full hfree hdeep]
    exact hC.refused hfree hdeep
  · rw [rule_of_room hfree hroom]
    exact hC.leftMatched tag hfree hroom (ha.1 hp) (ha.2 hp) hpfree
  · rw [rule_of_room hfree hroom]
    exact hC.leftFailed tag hfree hroom (ha.1 hp) (ha.2 hp)

theorem closed_leads [DecidableEq R] (hC : Composing C) : Closed (Leads C) where
  never := ⟨closed_extending.never, fun _ _ h => nomatch h⟩
  succeed := ⟨closed_extending.succeed, fun s _ h => Option.some.inj h ▸ hC.nothing s⟩
  fail := ⟨closed_extending.fail, fun s _ h => Option.some.inj h ▸ hC.nothing s⟩
  test := fun p => ⟨closed_extending.test _, fun s o h => by
    obtain rfl := Option.some.inj h
    split <;> exact hC.nothing s⟩
  abort := fun e => ⟨closed_extending.abort e, fun s _ h => Option.some.inj h ▸ hC.raised e s⟩
  pattern := leads_pattern hC
  andThen := leads_andThen hC
  orElse := leads_orElse hC
  recover := fun ha => ⟨closed_extending.recover ha.1, fun s o h => by
    obtain ⟨p, hp, rfl⟩ := recover_eq_some h
    show C s _ p.state
    exact ha.2 hp⟩
  sequence := leads_sequence hC
  alternative := leads_alternative hC
  repeated := fun bounds _ _ ha => leads_repeated hC bounds ha
  rule := fun tag _ _ ha => leads_rule hC tag ha

end Account

/-- **What holds of every moment, and of moments one after another, holds of every evaluation**:
of the state it starts from, its account and the state it ends in. -/
theorem Composing.eval [DecidableEq R] {n : Nat} {C : State R → List (Moment R) → State R → Prop}
    (hC : Composing C) (rules : Rules R n) {k : Nat} {e : Expr R n} {s : State R} {o : Outcome R}
    (h : Expr.eval rules k e s = some o) : C s (Expr.account rules k e s) o.state :=
  ((Account.closed_leads hC).eval rules k e).2 h

/-- The expressions of a trail have outcomes one after another. -/
theorem Expr.trail_cons_eq_some [DecidableEq R] {n : Nat} {rules : Rules R n} {e : Expr R n}
    {es : List (Expr R n)} {s : State R} {outcomes : List (Outcome R)}
    (h : trail rules (e :: es) s = some outcomes) :
    ∃ o later, body rules e s = some o ∧ trail rules es o.state = some later ∧
      outcomes = o :: later := by
  rw [trail] at h
  obtain ⟨o, ho, h⟩ := Option.bind_eq_some_iff.1 h
  obtain ⟨later, hlater, h⟩ := Option.bind_eq_some_iff.1 h
  exact ⟨o, later, ho, hlater, (Option.some.inj h).symm⟩

/-- What one expression keeps, expressions one after another keep, and so it holds of each state
between them. -/
theorem Expr.trail_keeps [DecidableEq R] {n : Nat} {P : State R → Prop} {rules : Rules R n}
    (hstep : ∀ {k e s o}, P s → eval rules k e s = some o → P o.state) {es : List (Expr R n)}
    {s : State R} {outcomes : List (Outcome R)} (h : trail rules es s = some outcomes) (hs : P s) :
    ∀ o ∈ outcomes, P o.state := by
  induction es generalizing s outcomes with
  | nil =>
    obtain rfl := Option.some.inj h
    exact fun o ho => nomatch ho
  | cons e es ih =>
    obtain ⟨o, later, ho, hlater, rfl⟩ := trail_cons_eq_some h
    exact List.forall_mem_cons.2 ⟨hstep hs ho, ih hlater (hstep hs ho)⟩

theorem State.extends_after [DecidableEq R] {n : Nat} {rules : Rules R n} {es : List (Expr R n)}
    {s : State R} {outcomes : List (Outcome R)} (h : Expr.trail rules es s = some outcomes) :
    s.Extends (s.after outcomes) := by
  induction es generalizing s outcomes with
  | nil =>
    obtain rfl := Option.some.inj h
    exact .refl s
  | cons e es ih =>
    obtain ⟨o, later, ho, hlater, rfl⟩ := Expr.trail_cons_eq_some h
    exact (Expr.eval_extends rules _ e ho).trans (ih hlater)

/-- **And so it holds of expressions that are applied one after another**: of the first state, what
happens in all of them, and the last state. -/
theorem Composing.trail [DecidableEq R] {n : Nat}
    {C : State R → List (Moment R) → State R → Prop} (hC : Composing C) {rules : Rules R n}
    {es : List (Expr R n)} {s : State R} {outcomes : List (Outcome R)}
    (h : Expr.trail rules es s = some outcomes) :
    C s (Expr.history rules es s) (s.after outcomes) := by
  induction es generalizing s outcomes with
  | nil =>
    obtain rfl := Option.some.inj h
    exact hC.nothing s
  | cons e es ih =>
    obtain ⟨o, later, ho, hlater, rfl⟩ := Expr.trail_cons_eq_some h
    rw [Expr.history, ho]
    exact hC.followed (Expr.eval_extends rules _ e ho) (State.extends_after hlater)
      (hC.eval rules ho) (ih hlater)

namespace Account

/-- All errors for which the account gives the parse up, full rules apart, are such. -/
def RaisesOnly (Q : Error → Prop) (α : Account R) : Prop := ∀ ⦃s t e⦄, .raised e t ∈ α s → Q e

variable {Q : Error → Prop} {a : Body R} {α β : Account R}

theorem raisesOnly_nothing : RaisesOnly Q (nothing : Account R) := fun _ _ _ h => nomatch h

theorem raisesOnly_abort {e : Error} (he : Q e) : RaisesOnly Q (abort e : Account R) := by
  intro s t e' h
  obtain ⟨rfl, -⟩ := Moment.raised.inj (List.mem_singleton.1 h)
  exact he

theorem raisesOnly_pattern (p : Pattern) : RaisesOnly Q (pattern p : Account R) := by
  intro s t e h
  unfold pattern at h
  split at h
  · cases h
  · split at h
    · cases h
    · cases List.mem_singleton.1 h

theorem raisesOnly_written {notated : Text} (h : ∀ cause, Q (.badNotation notated cause)) :
    RaisesOnly Q (written notated : Account R) := by
  intro s t e hmem
  unfold written at hmem
  split at hmem
  · exact raisesOnly_pattern _ hmem
  · exact raisesOnly_abort (h _) hmem

theorem raisesOnly_andThen (hα : RaisesOnly Q α) (hβ : RaisesOnly Q β) :
    RaisesOnly Q (andThen a α β) := by
  intro s t e h
  unfold andThen at h
  split at h
  · exact (List.mem_append.1 h).elim (fun h => hα h) fun h => hβ h
  · exact hα h

theorem raisesOnly_orElse (hα : RaisesOnly Q α) (hβ : RaisesOnly Q β) :
    RaisesOnly Q (orElse a α β) := by
  intro s t e h
  unfold orElse at h
  split at h
  · exact (List.mem_append.1 h).elim (fun h => hα h) fun h => hβ h
  · exact hα h

theorem raisesOnly_alternative (hα : RaisesOnly Q α) (hβ : RaisesOnly Q β) :
    RaisesOnly Q (alternative a α β) := by
  intro s t e h
  unfold alternative at h
  split at h
  · cases h
  · exact raisesOnly_orElse hα hβ h

/-- By induction on the attempts: a turn tells what its occurrence does, and what the loop does
after it. -/
theorem raisesOnly_occurrences (bounds : Notation.Repeat) (hα : RaisesOnly Q α)
    (attempts count : Nat) : RaisesOnly Q (occurrences bounds a α attempts count) := by
  induction attempts generalizing count with
  | zero =>
    intro s t e h
    unfold occurrences at h
    split at h <;> cases h
  | succ left ih =>
    intro s t e h
    unfold occurrences at h
    split at h
    · cases h
    · dsimp only at h
      split at h
      · split at h
        · exact hα h
        · exact (List.mem_append.1 h).elim (fun h => hα h) fun h => ih _ h
      · exact hα h

theorem raisesOnly_repeated {bounds : Notation.Repeat}
    (h : ∀ cause, Q (.badNotation bounds.render cause)) (hα : RaisesOnly Q α) :
    RaisesOnly Q (repeated bounds a α) := by
  intro s t e hmem
  unfold repeated at hmem
  split at hmem
  · exact raisesOnly_abort (h _) hmem
  · exact raisesOnly_occurrences bounds hα _ _ hmem

theorem raisesOnly_rule {tag : R} (hα : RaisesOnly Q α) : RaisesOnly Q (rule tag α) := by
  intro s t e h
  unfold rule at h
  split at h
  · cases h
  · split at h
    · cases List.mem_singleton.1 h
    · rcases List.mem_cons.1 h with h | h
      · cases h
      · exact hα h

end Account

namespace Expr

variable {n : Nat}

/-- Somewhere the expression says that the parse is to be given up for this error. -/
def Raises (err : Error) : Expr R n → Prop
  | succeed | fail | test _ | pattern _ | written _ | ref _ => False
  | abort e => e = err
  | andThen a b | orElse a b | alternative a b => a.Raises err ∨ b.Raises err
  | recover a | sequence a | repeated _ a | rule _ a => a.Raises err

variable [DecidableEq R]

theorem raisesOnly_recount {Q : Error → Prop} (hbad : ∀ source cause, Q (.badNotation source cause))
    {env : Fin n → Body R} {told : Fin n → Account R}
    (htold : ∀ i, Account.RaisesOnly Q (told i)) {e : Expr R n} (he : ∀ err, e.Raises err → Q err) :
    Account.RaisesOnly Q (recount env told e) := by
  induction e with
  | succeed => exact Account.raisesOnly_nothing
  | fail => exact Account.raisesOnly_nothing
  | test p => exact Account.raisesOnly_nothing
  | abort e => exact Account.raisesOnly_abort (he e rfl)
  | pattern p => exact Account.raisesOnly_pattern p
  | written notated => exact Account.raisesOnly_written (hbad notated)
  | andThen a b iha ihb =>
    exact Account.raisesOnly_andThen (iha fun err h => he err (.inl h))
      (ihb fun err h => he err (.inr h))
  | orElse a b iha ihb =>
    exact Account.raisesOnly_orElse (iha fun err h => he err (.inl h))
      (ihb fun err h => he err (.inr h))
  | recover a ih => exact ih he
  | sequence a ih => exact ih he
  | alternative a b iha ihb =>
    exact Account.raisesOnly_alternative (iha fun err h => he err (.inl h))
      (ihb fun err h => he err (.inr h))
  | repeated bounds a ih => exact Account.raisesOnly_repeated (hbad bounds.render) (ih he)
  | rule tag a ih => exact Account.raisesOnly_rule (ih he)
  | ref i => exact htold i

/-- **A grammar raises the errors that it names**, and those of notations and bounds that are bad;
all others are those of rules that are refused. -/
theorem raises_of_mem_account (rules : Rules R n) {k : Nat} {e : Expr R n} {err : Error}
    {s t : State R} (h : .raised err t ∈ account rules k e s) :
    (∃ source cause, err = .badNotation source cause) ∨ e.Raises err ∨
      ∃ i, (rules i).Raises err := by
  have htold (k : Nat) (i : Fin n) : Account.RaisesOnly
      (fun err => (∃ source cause, err = .badNotation source cause) ∨ e.Raises err ∨
        ∃ i, (rules i).Raises err) (told rules k i) := by
    induction k generalizing i with
    | zero => exact Account.raisesOnly_nothing
    | succ k ih =>
      exact raisesOnly_recount (fun source cause => .inl ⟨source, cause, rfl⟩) ih
        fun err herr => .inr (.inr ⟨i, herr⟩)
  exact raisesOnly_recount (fun source cause => .inl ⟨source, cause, rfl⟩) (htold k)
    (fun err herr => .inr (.inl herr)) h

end Expr

end Descent
