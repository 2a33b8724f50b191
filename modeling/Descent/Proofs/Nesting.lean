/-
# An outcome does not depend on how deep references may nest

An expression is evaluated with references nested no deeper than some number, and
has no outcome when that is not enough.  A larger number gives outcomes where there
were none, and changes none that there was (`Expr.eval_mono`): every operator asks
its parts for an outcome and does the same with the same one (`Body.Below`).
-/

import Descent.Proofs.Outcomes

namespace Descent

variable {R : Type}

namespace Body

/-- Where the first body has an outcome, the second one has the same. -/
def Below (a b : Body R) : Prop := ∀ ⦃s o⦄, a s = some o → b s = some o

variable {a a' b b' : Body R}

theorem Below.refl (a : Body R) : Below a a := fun _ _ h => h

theorem below_andThen (ha : Below a a') (hb : Below b b') :
    Below (andThen a b) (andThen a' b') := by
  intro s o h
  rcases andThen_eq_some h with ⟨t, hat, hbt⟩ | ⟨t, hat, rfl⟩
  · rw [andThen, ha hat]
    exact hb hbt
  · rw [andThen, ha hat]

theorem below_orElse (ha : Below a a') (hb : Below b b') : Below (orElse a b) (orElse a' b') := by
  intro s o h
  rcases orElse_eq_some h with ⟨t, hat, hbt⟩ | ⟨t, hat, rfl⟩
  · rw [orElse, ha hat]
    exact hb hbt
  · rw [orElse, ha hat]

theorem below_recover (ha : Below a a') : Below (recover a) (recover a') := by
  intro s o h
  obtain ⟨p, hp, rfl⟩ := recover_eq_some h
  rw [recover, ha hp, Option.map_some]

theorem below_sequence (ha : Below a a') : Below (sequence a) (sequence a') := by
  intro s o h
  rcases sequence_eq_some h with ⟨t, hat, rfl⟩ | ⟨t, hat, rfl⟩
  · rw [sequence, ha hat]
  · rw [sequence, ha hat]

theorem below_alternative (ha : Below a a') (hb : Below b b') :
    Below (alternative a b) (alternative a' b') := by
  intro s o h
  rcases alternative_eq_some h with ⟨hab, rfl⟩ | ⟨hfree, h⟩
  · rw [alternative, if_pos hab]
  · rw [alternative, if_neg (Bool.eq_false_iff.1 hfree)]
    exact below_orElse (below_sequence ha) hb h

theorem Loop.mono {bounds : Notation.Repeat} {attempts count total : Nat} {s t : State R}
    (h : Loop bounds a attempts count s total t) (ha : Below a a') :
    Loop bounds a' attempts count s total t := by
  induction h with
  | stop hstop => exact .stop hstop
  | failed hroom hfree hs => exact .failed hroom hfree (below_sequence ha hs)
  | last hroom hfree hs hmay hoff => exact .last hroom hfree (below_sequence ha hs) hmay hoff
  | onward hroom hfree hs hon _ ih => exact .onward hroom hfree (below_sequence ha hs) hon ih

theorem below_repeated (bounds : Notation.Repeat) (ha : Below a a') :
    Below (repeated bounds a) (repeated bounds a') := by
  intro s o h
  unfold repeated at h ⊢
  split
  · rename_i cause hcause
    rw [hcause] at h
    exact h
  · rename_i hvalid
    rw [hvalid] at h
    obtain ⟨⟨total, t⟩, ht, rfl⟩ := Option.map_eq_some_iff.1 h
    rw [((Loop.of_occurrences ht).mono ha).occurrences_eq, Option.map_some]

theorem below_rule (tag : R) (ha : Below a a') : Below (rule tag a) (rule tag a') := by
  intro s o h
  unfold rule at h ⊢
  split
  · rename_i hab
    rwa [if_pos hab] at h
  · rename_i hab
    rw [if_neg hab] at h
    split
    · rename_i hdeep
      rwa [if_pos hdeep] at h
    · rename_i hdeep
      rw [if_neg hdeep] at h
      cases hp : a (s.enter tag) with
      | none =>
        rw [hp] at h
        cases h
      | some p =>
        rw [hp] at h
        rw [ha hp]
        exact h

end Body

namespace Expr

variable [DecidableEq R] {n : Nat}

theorem denote_below {env env' : Fin n → Body R} (h : ∀ i, Body.Below (env i) (env' i))
    (e : Expr R n) : Body.Below (denote env e) (denote env' e) := by
  induction e with
  | succeed => exact .refl _
  | fail => exact .refl _
  | test p => exact .refl _
  | abort e => exact .refl _
  | pattern p => exact .refl _
  | written notated => exact .refl _
  | andThen a b iha ihb => exact Body.below_andThen iha ihb
  | orElse a b iha ihb => exact Body.below_orElse iha ihb
  | recover a ih => exact Body.below_recover ih
  | sequence a ih => exact Body.below_sequence ih
  | alternative a b iha ihb => exact Body.below_alternative iha ihb
  | repeated bounds a ih => exact Body.below_repeated bounds ih
  | rule tag a ih => exact Body.below_rule tag ih
  | ref i => exact h i

theorem unfold_below (rules : Rules R n) {k k' : Nat} (hk : k ≤ k') (i : Fin n) :
    Body.Below (unfold rules k i) (unfold rules k' i) := by
  induction k generalizing k' i with
  | zero => exact fun _ _ h => nomatch h
  | succ k ih =>
    obtain ⟨k', rfl⟩ : ∃ m, k' = m + 1 := ⟨k' - 1, by omega⟩
    exact denote_below (ih (Nat.le_of_succ_le_succ hk)) (rules i)

/-- **Deeper references change no outcome.** -/
theorem eval_mono (rules : Rules R n) {k k' : Nat} (hk : k ≤ k') (e : Expr R n) :
    Body.Below (eval rules k e) (eval rules k' e) :=
  denote_below (unfold_below rules hk) e

end Expr
end Descent
