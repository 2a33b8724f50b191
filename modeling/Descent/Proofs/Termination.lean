/-
# Guarded rules always come to an end

A body may refer to itself, directly or through other rules, and a repetition may
have no greatest number.  Three things end an evaluation all the same, when every
cycle of references enters a rule on its way (`Rules.Guarded`):

| step | what gets smaller |
| --- | --- |
| entering a rule | how many more rules may be active (`State.room`) |
| a reference | the number of rules that can be reached without entering one (`Rules.rank`) |
| a part of an expression | the expression |
| one more occurrence | the attempts that are needed (`Body.needed`) |

An attempt at an occurrence takes a byte once there are enough of them, or is the
last one, because no body moves the cursor back (`State.Extends`).  The first two
measures say how deep references need to nest: no deeper than `n` for every rule that
may still be entered, and `n` once more (`Expr.exists_outcome`).
-/

import Descent.Proofs.Extension
import Descent.Proofs.Nesting
import Mathlib.Data.Fintype.Card
import Mathlib.Logic.Relation

namespace Descent

variable {R : Type}

namespace State

/-- How many more rules may be active. -/
def room (s : State R) : Nat := s.maxDepth - s.diagnostics.depth

theorem Extends.room_eq {s t : State R} (h : s.Extends t) : t.room = s.room := by
  unfold room
  rw [h.maxDepth, h.depth_eq]

theorem room_enter (s : State R) (tag : R) : (s.enter tag).room = s.room - 1 := by
  have hdepth : (s.enter tag).diagnostics.depth = s.diagnostics.depth + 1 := rfl
  unfold room
  rw [hdepth]
  show s.maxDepth - _ = _
  omega

/-- What follows a later cursor is shorter by what was taken. -/
theorem Extends.byteLength_rest {s t : State R} (h : s.Extends t) :
    t.rest.byteLength + t.offset = s.rest.byteLength + s.offset := by
  obtain ⟨taken, htaken⟩ := h.cursor
  have hrest : s.rest.byteLength = taken.byteLength + t.rest.byteLength := by
    unfold rest
    rw [htaken.rest, Text.byteLength_append]
  have hoffset : t.offset = s.offset + taken.byteLength := htaken.offset
  omega

end State

namespace Body

/-- How many attempts a repetition can need, after `count` occurrences and with this text left. -/
def needed (bounds : Notation.Repeat) (count : Nat) (rest : Text) : Nat :=
  match bounds.max with
  | some max => max.toNat - count
  | none => max (max bounds.min.toNat 1 - count) 1 + rest.byteLength

theorem attempts_eq_needed (bounds : Notation.Repeat) (rest : Text) :
    attempts bounds rest = needed bounds 0 rest := by
  unfold attempts needed
  cases bounds.max with
  | some max => rfl
  | none =>
    dsimp only
    omega

/-- While the greatest number is not reached, at least one attempt is needed. -/
theorem needed_pos {bounds : Notation.Repeat} {count : Nat} (hroom : isFull bounds count = false)
    (rest : Text) : 0 < needed bounds count rest := by
  unfold isFull at hroom
  unfold needed
  cases hmax : bounds.max with
  | some max =>
    rw [hmax] at hroom
    have := of_decide_eq_false hroom
    dsimp only
    omega
  | none =>
    dsimp only
    omega

/-- **An occurrence that is not the last one needs an attempt less afterwards.**  Below the least
number the occurrence counts, and above it the byte that it takes. -/
theorem needed_lt {bounds : Notation.Repeat} {count : Nat} {s t : State R}
    (hroom : isFull bounds count = false) (hext : s.Extends t)
    (hon : ¬(mayStop bounds (count + 1) = true ∧ t.offset = s.offset)) :
    needed bounds (count + 1) t.rest < needed bounds count s.rest := by
  have hlen := hext.byteLength_rest
  have hoff := hext.offset_le
  unfold isFull at hroom
  unfold mayStop at hon
  unfold needed
  cases hmax : bounds.max with
  | some max =>
    rw [hmax] at hroom
    have := of_decide_eq_false hroom
    dsimp only
    omega
  | none =>
    rw [hmax] at hon
    simp only [Option.isNone_none, Bool.true_and, decide_eq_true_eq] at hon
    dsimp only
    omega

/-- The body has an outcome on every state in which no more than `room` rules may be entered. -/
def Halting (room : Nat) (a : Body R) : Prop := ∀ ⦃s⦄, s.room ≤ room → ∃ o, a s = some o

variable {a b : Body R} {room : Nat}

theorem halting_pattern (p : Pattern) : Halting room (pattern p : Body R) := by
  intro s _
  unfold pattern
  split
  · exact ⟨_, rfl⟩
  · split
    · exact ⟨_, rfl⟩
    · exact ⟨_, rfl⟩

theorem halting_written (notated : Text) : Halting room (written notated : Body R) := by
  cases h : Notation.Terminal.read notated with
  | ok terminal =>
    rw [written_of_read h]
    exact halting_pattern _
  | error cause =>
    rw [written_of_error h]
    exact fun s _ => ⟨_, rfl⟩

theorem halting_andThen (hext : Extending a) (ha : Halting room a) (hb : Halting room b) :
    Halting room (andThen a b) := by
  intro s hs
  obtain ⟨o, ho⟩ := ha hs
  unfold andThen
  rw [ho]
  cases o with
  | matched t => exact hb ((hext ho).room_eq.trans_le hs)
  | failed t => exact ⟨_, rfl⟩

theorem halting_orElse (hext : Extending a) (ha : Halting room a) (hb : Halting room b) :
    Halting room (orElse a b) := by
  intro s hs
  obtain ⟨o, ho⟩ := ha hs
  unfold orElse
  rw [ho]
  cases o with
  | matched t => exact ⟨_, rfl⟩
  | failed t => exact hb ((hext ho).room_eq.trans_le hs)

theorem halting_recover (ha : Halting room a) : Halting room (recover a) := by
  intro s hs
  obtain ⟨o, ho⟩ := ha hs
  exact ⟨_, by rw [recover, ho, Option.map_some]⟩

theorem halting_sequence (ha : Halting room a) : Halting room (sequence a) := by
  intro s hs
  obtain ⟨o, ho⟩ := ha hs
  unfold sequence
  rw [ho]
  cases o with
  | matched t => exact ⟨_, rfl⟩
  | failed t => exact ⟨_, rfl⟩

theorem halting_alternative (hext : Extending a) (ha : Halting room a) (hb : Halting room b) :
    Halting room (alternative a b) := by
  intro s hs
  unfold alternative
  split
  · exact ⟨_, rfl⟩
  · exact halting_orElse (extending_sequence hext) (halting_sequence ha) hb hs

/-- The loop comes to an end within the attempts that it is given; the induction is on these. -/
theorem exists_loop (hext : Extending a) (ha : Halting room a) {bounds : Notation.Repeat}
    {attempts count : Nat} {s : State R} (hs : s.room ≤ room)
    (hneeded : needed bounds count s.rest ≤ attempts) :
    ∃ total t, Loop bounds a attempts count s total t := by
  induction attempts generalizing count s with
  | zero =>
    refine ⟨count, s, .stop (.inl ?_)⟩
    by_contra hopen
    have hpos := needed_pos (Bool.eq_false_iff.2 hopen) s.rest
    omega
  | succ attempts ih =>
    by_cases hstop : isFull bounds count = true ∨ s.isAborted = true
    · exact ⟨count, s, .stop hstop⟩
    · obtain ⟨hopen, hgo⟩ := not_or.1 hstop
      have hroom : isFull bounds count = false := Bool.eq_false_iff.2 hopen
      have hfree : s.isAborted = false := Bool.eq_false_iff.2 hgo
      obtain ⟨o, ho⟩ := halting_sequence ha hs
      cases o with
      | failed t => exact ⟨count, t, .failed hroom hfree ho⟩
      | matched t =>
        have hst : s.Extends t := extending_sequence hext ho
        by_cases hend : mayStop bounds (count + 1) = true ∧ t.offset = s.offset
        · exact ⟨count + 1, t, .last hroom hfree ho hend.1 hend.2⟩
        · have hless := needed_lt hroom hst hend
          have hleft : needed bounds (count + 1) t.rest ≤ attempts := by omega
          obtain ⟨total, u, hu⟩ := ih (hst.room_eq.trans_le hs) hleft
          exact ⟨total, u, .onward hroom hfree ho hend hu⟩

theorem halting_repeated (bounds : Notation.Repeat) (hext : Extending a) (ha : Halting room a) :
    Halting room (repeated bounds a) := by
  intro s hs
  unfold repeated
  split
  · exact ⟨_, rfl⟩
  · obtain ⟨total, t, ht⟩ := exists_loop hext ha hs (attempts_eq_needed bounds s.rest).ge
    exact ⟨_, by rw [ht.occurrences_eq, Option.map_some]⟩

/-- A rule is refused when no more may be active, and its body has room for one less. -/
theorem halting_rule (tag : R) (ha : ∀ inner < room, Halting inner a) :
    Halting room (rule tag a) := by
  intro s hs
  unfold rule
  split
  · exact ⟨_, rfl⟩
  · split
    · exact ⟨_, rfl⟩
    · rename_i hdeep
      have hinner : (s.enter tag).room < room := by
        have hpos : 0 < s.room := Nat.sub_pos_of_lt (Nat.lt_of_not_le hdeep)
        rw [s.room_enter tag]
        omega
      obtain ⟨o, ho⟩ := ha _ hinner (Nat.le_refl _)
      rw [ho]
      cases o with
      | failed t => exact ⟨_, rfl⟩
      | matched t =>
        dsimp only
        split
        · exact ⟨_, rfl⟩
        · exact ⟨_, rfl⟩

end Body

/-- The rules to which an expression refers outside of every `rule` in it. -/
def Expr.openRefs {n : Nat} : Expr R n → List (Fin n)
  | .ref i => [i]
  | .succeed | .fail | .test _ | .abort _ | .pattern _ | .written _ | .rule _ _ => []
  | .andThen a b | .orElse a b | .alternative a b => a.openRefs ++ b.openRefs
  | .recover a | .sequence a | .repeated _ a => a.openRefs

namespace Rules

variable {n : Nat} (rules : Rules R n)

/-- The body of rule `i` may reach that of rule `j` without entering a rule. -/
def Opens (i j : Fin n) : Prop := j ∈ (rules i).openRefs

/-- No body reaches itself by references unless a rule is entered on the way. -/
def Guarded : Prop := ∀ i, ¬ Relation.TransGen rules.Opens i i

open Classical in
/-- The number of rules whose bodies are reached from that of rule `i` without entering a rule. -/
noncomputable def rank (i : Fin n) : Nat :=
  (Finset.univ.filter fun j => Relation.TransGen rules.Opens i j).card

variable {rules}

theorem Guarded.rank_lt_size (h : rules.Guarded) (i : Fin n) : rules.rank i < n := by
  classical
  have hcard : rules.rank i < (Finset.univ : Finset (Fin n)).card :=
    Finset.card_lt_card (Finset.filter_ssubset.2 ⟨i, Finset.mem_univ i, h i⟩)
  rwa [Finset.card_univ, Fintype.card_fin] at hcard

/-- What a rule reaches through another one it reaches itself, and the other one besides. -/
theorem Guarded.rank_lt (h : rules.Guarded) {i j : Fin n} (hij : rules.Opens i j) :
    rules.rank j < rules.rank i := by
  classical
  refine Finset.card_lt_card (Finset.ssubset_iff_of_subset ?_ |>.2 ⟨j, ?_, ?_⟩)
  · intro l hl
    rw [Finset.mem_filter] at hl ⊢
    exact ⟨hl.1, .head hij hl.2⟩
  · exact Finset.mem_filter.2 ⟨Finset.mem_univ j, .single hij⟩
  · exact fun hj => h j (Finset.mem_filter.1 hj).2

end Rules

namespace Expr

variable [DecidableEq R] {n : Nat} {rules : Rules R n}

/-- **Enough depth of references.**  The outer induction is on the depth, which a reference uses
up, and the inner one on the expression; where a rule is entered the room for rules pays for
the ranks of the references in its body. -/
theorem halting_eval (h : rules.Guarded) {k room : Nat} {e : Expr R n} (hk : n * room ≤ k)
    (he : ∀ i ∈ e.openRefs, n * room + rules.rank i < k) : Body.Halting room (eval rules k e) := by
  induction k using Nat.strongRecOn generalizing room e with
  | ind k ihk =>
  induction e generalizing room with
  | succeed => exact fun s _ => ⟨_, rfl⟩
  | fail => exact fun s _ => ⟨_, rfl⟩
  | test p => exact fun s _ => ⟨_, rfl⟩
  | abort e => exact fun s _ => ⟨_, rfl⟩
  | pattern p => exact Body.halting_pattern p
  | written notated => exact Body.halting_written notated
  | andThen a b iha ihb =>
    exact Body.halting_andThen (eval_extends rules k a)
      (iha hk fun i hi => he i (List.mem_append_left _ hi))
      (ihb hk fun i hi => he i (List.mem_append_right _ hi))
  | orElse a b iha ihb =>
    exact Body.halting_orElse (eval_extends rules k a)
      (iha hk fun i hi => he i (List.mem_append_left _ hi))
      (ihb hk fun i hi => he i (List.mem_append_right _ hi))
  | recover a ih => exact Body.halting_recover (ih hk he)
  | sequence a ih => exact Body.halting_sequence (ih hk he)
  | alternative a b iha ihb =>
    exact Body.halting_alternative (eval_extends rules k a)
      (iha hk fun i hi => he i (List.mem_append_left _ hi))
      (ihb hk fun i hi => he i (List.mem_append_right _ hi))
  | repeated bounds a ih =>
    exact Body.halting_repeated bounds (eval_extends rules k a) (ih hk he)
  | rule tag a ih =>
    refine Body.halting_rule tag fun inner hinner => ?_
    have hpay : n * inner + n ≤ k := calc
      n * inner + n = n * (inner + 1) := (Nat.mul_succ n inner).symm
      _ ≤ n * room := Nat.mul_le_mul_left n hinner
      _ ≤ k := hk
    refine ih (by omega) fun i _ => ?_
    have := h.rank_lt_size i
    omega
  | ref i =>
    have hi := he i (List.mem_singleton_self i)
    obtain ⟨k, rfl⟩ : ∃ m, k = m + 1 := ⟨k - 1, by omega⟩
    have hbody : Body.Halting room (eval rules k (rules i)) := by
      refine ihk k (Nat.lt_succ_self k) (by omega) fun j hj => ?_
      have := h.rank_lt (show rules.Opens i j from hj)
      omega
    exact hbody

omit [DecidableEq R] in
/-- The depth that is set aside for an evaluation covers what guarded rules need. -/
theorem le_nesting (rules : Rules R n) (e : Expr R n) (s : State R) :
    n * (s.maxDepth + 1) ≤ nesting rules e s := by
  unfold nesting
  dsimp only
  refine Nat.mul_le_mul_left n (Nat.le_trans ?_ (Nat.le_add_right _ 1))
  refine Nat.le_trans ?_ (Nat.le_add_right _ s.rest.byteLength)
  exact Nat.le_mul_of_pos_right _ (Nat.succ_pos _)

/-- A depth of references that leaves `n` of them for each rule that may be active, and `n` more,
is enough under guarded rules. -/
theorem exists_eval (h : rules.Guarded) (e : Expr R n) {s : State R} {k : Nat}
    (hk : n * (s.maxDepth + 1) ≤ k) : ∃ o, eval rules k e s = some o := by
  have hdepth : n * s.maxDepth + n = n * (s.maxDepth + 1) := (Nat.mul_succ n s.maxDepth).symm
  have henough : Body.Halting s.maxDepth (eval rules k e) := by
    refine halting_eval h (by omega) fun i _ => ?_
    have := h.rank_lt_size i
    omega
  have hroom : s.room ≤ s.maxDepth := Nat.sub_le _ _
  exact henough hroom

/-- **Guarded rules always come to an end.**  When every cycle of references enters a rule, every
expression has an outcome on every state, whatever the input and however many rules may be
active at once; and it is the outcome at any depth of references that leaves `n` of them for
each rule that may be active and `n` more. -/
theorem exists_outcome (h : rules.Guarded) (e : Expr R n) (s : State R) :
    ∃ o, body rules e s = some o ∧
      ∀ k, n * (s.maxDepth + 1) ≤ k → eval rules k e s = some o := by
  have hroom : s.room ≤ s.maxDepth := Nat.sub_le _ _
  have hdepth : n * s.maxDepth + n = n * (s.maxDepth + 1) := (Nat.mul_succ n s.maxDepth).symm
  have henough : Body.Halting s.maxDepth (eval rules (n * (s.maxDepth + 1)) e) := by
    refine halting_eval h (by omega) fun i _ => ?_
    have := h.rank_lt_size i
    omega
  obtain ⟨o, ho⟩ := henough hroom
  exact ⟨o, eval_mono rules (le_nesting rules e s) e ho, fun k hk => eval_mono rules hk e ho⟩

/-- Two rules that refer to each other before they take anything: the first one is entered and
then repeats the second, which may be the first again or nothing at all. -/
def leftRecursive : Rules Unit 2 := fun i =>
  if i = 0 then .rule () (many (.ref 1)) else .orElse (.ref 0) .succeed

theorem opens_leftRecursive {i j : Fin 2} (h : leftRecursive.Opens i j) : i = 1 ∧ j = 0 := by
  unfold Rules.Opens leftRecursive at h
  split at h
  · cases h
  · rename_i hi
    exact ⟨by omega, List.mem_singleton.1 h⟩

theorem guarded_leftRecursive : leftRecursive.Guarded := by
  intro i hcycle
  obtain ⟨j, hij, -⟩ := Relation.TransGen.head'_iff.1 hcycle
  obtain ⟨l, -, hli⟩ := Relation.TransGen.tail'_iff.1 hcycle
  have hfirst : i = 1 := (opens_leftRecursive hij).1
  have hlast : i = 0 := (opens_leftRecursive hli).2
  omega

/-- Left recursion, and an unbounded repetition of what may be empty, have an outcome. -/
theorem exists_outcome_leftRecursive : leftRecursive.Guarded ∧
    ∃ o, body leftRecursive (many (.ref 1)) (.start ['a'] .standard) = some o ∧
      ∀ k, 2 * (256 + 1) ≤ k →
        eval leftRecursive k (many (.ref 1)) (.start ['a'] .standard) = some o :=
  ⟨guarded_leftRecursive, exists_outcome guarded_leftRecursive (many (.ref 1)) _⟩

end Expr
end Descent
