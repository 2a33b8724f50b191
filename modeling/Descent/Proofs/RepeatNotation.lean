/-
# Which texts are notations of numbers of occurrences

`Notates s min max` says without a reader that the text `s` is written for the bounds `min` and
`max`, which are numbers of any size:

| written | bounds |
| --- | --- |
| a number | that number, and again that number |
| a star with a number or nothing on either side | the one before it or zero, the one after it or none |

A text is written for one pair of bounds at most (`Notates.unique`), as no star stands in a number.
The reader holds a bound in 64 bits and does not read a number that is larger.  It then goes on as
if no number stood there, which could be taken for a bound that is left out; but the digits are
still there.  Before a star they are no star, and after it they are left over, so the text is
refused as malformed (`element_eq_ok_nil_iff`).

What is written for bounds is one of their notations (`notates_render`), whichever of the short
forms it takes, and so reading is the inverse of writing.
-/

import Descent.Notation.Repeat
import Descent.Proofs.Reading

namespace Descent
namespace Notation
namespace Repeat

open Text.Numeral (Spells isDigit)

/-- The text is a number, or nothing where there is none. -/
inductive Bound : Text → Option Nat → Prop where
  | absent : Bound [] none
  | given {digits : Text} {n : Nat} : Spells 10 digits n → Bound digits (some n)

/-- The text is a notation of the bounds. -/
inductive Notates : Text → Nat → Option Nat → Prop where
  | count {digits : Text} {n : Nat} : Spells 10 digits n → Notates digits n (some n)
  | star {start stop : Text} {min max : Option Nat} : Bound start min → Bound stop max →
      Notates (start ++ '*' :: stop) (min.getD 0) max

/-! ## One text, one pair of bounds -/

theorem isDigit_star : isDigit 10 '*' = false := rfl

theorem Bound.forall_isDigit {s : Text} {bound : Option Nat} (h : Bound s bound) :
    ∀ c ∈ s, isDigit 10 c = true := by
  cases h with
  | absent => nofun
  | given hdigits => exact hdigits.isDigit (by decide)

theorem Bound.unique {s : Text} {bound bound' : Option Nat} (h : Bound s bound)
    (h' : Bound s bound') : bound = bound' := by
  cases h with
  | absent =>
    cases h' with
    | absent => rfl
    | given hdigits => exact absurd rfl hdigits.1
  | given hdigits =>
    cases h' with
    | absent => exact absurd rfl hdigits.1
    | given hdigits' =>
      rw [← hdigits.value_eq (by decide), ← hdigits'.value_eq (by decide)]

/-- The digits before a star are all that stands before it. -/
theorem star_ne_digits {start stop digits : Text} {n : Nat} (h : Spells 10 digits n) :
    start ++ '*' :: stop ≠ digits := by
  rintro rfl
  cases h.isDigit (by decide) '*' (by simp)

/-- **A text is a notation of one pair of bounds.** -/
theorem Notates.unique {s : Text} {min min' : Nat} {max max' : Option Nat}
    (h : Notates s min max) (h' : Notates s min' max') : min = min' ∧ max = max' := by
  generalize hs : s = s' at h'
  cases h with
  | count hdigits =>
    cases h' with
    | count hdigits' =>
      obtain rfl := hs
      rw [← hdigits.value_eq (by decide), ← hdigits'.value_eq (by decide)]
      exact ⟨rfl, rfl⟩
    | star => exact absurd hs.symm (star_ne_digits hdigits)
  | star hstart hstop =>
    cases h' with
    | count hdigits' => exact absurd hs (star_ne_digits hdigits')
    | star hstart' hstop' =>
      obtain ⟨rfl, rfl⟩ :=
        Text.delimited_inj isDigit_star hs hstart.forall_isDigit hstart'.forall_isDigit
      exact ⟨congrArg (Option.getD · 0) (hstart.unique hstart'), hstop.unique hstop'⟩

/-! ## Reading -/

/-- **A number of 64 bits is read from all the digits at the head of a text.** -/
theorem count?_eq_some_iff {t rest : Text} {n : UInt64} :
    count? t = some (n, rest) ↔
      ∃ digits, t = digits ++ rest ∧ Spells 10 digits n.toNat ∧
        ∀ c ∈ rest.head?, isDigit 10 c = false := by
  rw [← number?_eq_some_iff (by decide)]
  unfold count?
  split
  · rename_i m rest' hnumber
    rw [hnumber]
    split
    · rename_i hlt
      have hm : m.toUInt64.toNat = m := UInt64.toNat_ofNat_of_lt' hlt
      simp only [Option.some.injEq, Prod.mk.injEq, ← UInt64.toNat_inj, hm]
    · rename_i hge
      simp only [reduceCtorEq, Option.some.injEq, Prod.mk.injEq, false_iff, not_and]
      rintro rfl
      exact absurd n.toNat_lt hge
  · rename_i hnumber
    simp [hnumber]

/-- What is read where a number may stand is one, or nothing. -/
theorem bound_of_optionally {t rest : Text} {found : Option UInt64}
    (h : optionally count? t = (found, rest)) :
    ∃ digits, t = digits ++ rest ∧ Bound digits (found.map UInt64.toNat) := by
  unfold optionally at h
  split at h
  · rename_i n rest' hcount
    obtain ⟨rfl, rfl⟩ := Prod.mk.inj h
    obtain ⟨digits, ht, hdigits, -⟩ := count?_eq_some_iff.1 hcount
    exact ⟨digits, ht, .given hdigits⟩
  · obtain ⟨rfl, rfl⟩ := Prod.mk.inj h
    exact ⟨[], rfl, .absent⟩

/-- A number of 64 bits is read where one may stand, if no digit comes after it. -/
theorem Bound.optionally_eq {digits rest : Text} {found : Option UInt64}
    (h : Bound digits (found.map UInt64.toNat)) (hrest : ∀ c ∈ rest.head?, isDigit 10 c = false) :
    optionally count? (digits ++ rest) = (found, rest) := by
  cases found with
  | none =>
    cases h
    have hcount : count? rest = none := by
      refine Option.eq_none_iff_forall_ne_some.2 fun ⟨n, rest'⟩ hcount => ?_
      obtain ⟨digits, rfl, hdigits, -⟩ := count?_eq_some_iff.1 hcount
      obtain ⟨c, digits, rfl⟩ := List.exists_cons_of_ne_nil hdigits.1
      have hc := hdigits.isDigit (by decide) c (by simp)
      rw [hrest c rfl] at hc
      cases hc
    rw [List.nil_append, optionally, hcount]
  | some n =>
    cases h with
    | given hdigits =>
      rw [optionally, count?_eq_some_iff.2 ⟨digits, rfl, hdigits, hrest⟩]

theorem Bound.optionally_self {digits : Text} {found : Option UInt64}
    (h : Bound digits (found.map UInt64.toNat)) : optionally count? digits = (found, []) := by
  have hall : optionally count? (digits ++ []) = (found, []) := h.optionally_eq nofun
  rwa [List.append_nil] at hall

theorem element_of_notates {s : Text} {r : Repeat} {min : Nat} {max : Option Nat}
    (h : Notates s min max) (hmin : r.min.toNat = min) (hmax : r.max.map UInt64.toNat = max) :
    element s = .ok (r, []) := by
  obtain ⟨least, greatest⟩ := r
  dsimp only at hmin hmax
  cases h with
  | count hdigits =>
    subst hmin
    obtain ⟨n, rfl, hn⟩ := Option.map_eq_some_iff.1 hmax
    obtain rfl := UInt64.toNat_inj.1 hn
    have hfound : optionally count? s = (some n, []) := by
      have hbound : Bound s ((some n).map UInt64.toNat) := .given hdigits
      exact hbound.optionally_self
    rw [element, hfound]
    rfl
  | @star start stop min max hstart hstop =>
    obtain ⟨found, rfl, rfl⟩ : ∃ found : Option UInt64,
        found.map UInt64.toNat = min ∧ found.getD 0 = least := by
      cases min with
      | none => exact ⟨none, rfl, UInt64.toNat_inj.1 hmin.symm⟩
      | some n => exact ⟨some least, congrArg some hmin, rfl⟩
    subst hmax
    have hbefore : optionally count? (start ++ '*' :: stop) = (found, '*' :: stop) :=
      hstart.optionally_eq (by simp [isDigit_star])
    have hafter : optionally count? stop = (greatest, []) := hstop.optionally_self
    rw [element, hbefore]
    simp only [hafter]

/-- **Bounds are read from their notations and from nothing else.** -/
theorem element_eq_ok_nil_iff {s : Text} {r : Repeat} :
    element s = .ok (r, []) ↔ Notates s r.min.toNat (r.max.map UInt64.toNat) := by
  refine ⟨fun h => ?_, fun h => element_of_notates h rfl rfl⟩
  unfold element at h
  split at h
  · rename_i min rest hbefore
    obtain ⟨start, rfl, hstart⟩ := bound_of_optionally hbefore
    rcases hafter : optionally count? rest with ⟨max, after⟩
    rw [hafter] at h
    obtain ⟨rfl, rfl⟩ := Prod.mk.inj (Except.ok.inj h)
    obtain ⟨stop, rfl, hstop⟩ := bound_of_optionally hafter
    rw [List.append_nil]
    have hmin : (min.getD 0).toNat = (min.map UInt64.toNat).getD 0 := by cases min <;> rfl
    rw [hmin]
    exact .star hstart hstop
  · rename_i n rest _ hfound
    obtain ⟨rfl, rfl⟩ := Prod.mk.inj (Except.ok.inj h)
    obtain ⟨digits, rfl, hbound⟩ := bound_of_optionally hfound
    cases hbound with
    | given hdigits =>
      rw [List.append_nil]
      exact .count hdigits
  · cases h

theorem malformed_of_element {s : Text} {e : Error} (h : element s = .error e) :
    ∃ expected rest, e = .malformed expected rest := by
  unfold element at h
  split at h
  · cases h
  · cases h
  · exact ⟨_, _, (Except.error.inj h).symm⟩

/-! ## Bounds out of order -/

/-- Bounds are in order when the least number is not above the greatest. -/
theorem validate_eq_ok_iff {bounds : Repeat} :
    bounds.validate = .ok () ↔ ∀ most, bounds.max = some most → bounds.min ≤ most := by
  unfold validate
  cases bounds.max with
  | none => simp only [reduceCtorEq, false_implies, implies_true]
  | some max =>
    simp only [Option.some.injEq, forall_eq', ← UInt64.not_lt]
    by_cases hlt : max < bounds.min
    · rw [if_pos hlt]
      exact iff_of_false nofun (not_not_intro hlt)
    · rw [if_neg hlt]
      exact iff_of_true rfl hlt

theorem validate_eq_error_iff {bounds : Repeat} {e : Error} :
    bounds.validate = .error e ↔
      ∃ most, bounds.max = some most ∧ most < bounds.min ∧ e = .repeatInverted bounds.min most := by
  unfold validate
  cases bounds.max with
  | none => simp
  | some max =>
    by_cases hlt : max < bounds.min
    · simp [hlt, eq_comm]
    · simp [hlt]

/-! ## Reading to the end -/

theorem whole_element_eq_ok_iff {s : Text} {r : Repeat} :
    whole element s = .ok r ↔ Notates s.trim r.min.toNat (r.max.map UInt64.toNat) :=
  whole_eq_ok_iff.trans element_eq_ok_nil_iff

/-- **What is notated is read, unless its bounds are out of order.** -/
theorem read_of_notates {s : Text} {r : Repeat}
    (h : Notates s.trim r.min.toNat (r.max.map UInt64.toNat)) :
    read s = r.validate.map fun _ => r := by
  have hwhole : whole element s = .ok r := whole_element_eq_ok_iff.2 h
  rw [read, hwhole]
  show (do r.validate; return r) = r.validate.map fun _ => r
  cases r.validate <;> rfl

theorem read_eq_ok_iff {s : Text} {r : Repeat} :
    read s = .ok r ↔
      Notates s.trim r.min.toNat (r.max.map UInt64.toNat) ∧
        ∀ most, r.max = some most → r.min ≤ most := by
  rw [read, checked_eq_ok_iff, whole_element_eq_ok_iff, validate_eq_ok_iff]

theorem malformed_of_whole_element {s : Text} {e : Error} (h : whole element s = .error e) :
    ∃ expected rest, e = .malformed expected rest :=
  exists_malformed_of_whole (fun _ => malformed_of_element) h

theorem read_eq_inverted_iff {s : Text} {min max : UInt64} :
    read s = .error (.repeatInverted min max) ↔
      Notates s.trim min.toNat (some max.toNat) ∧ max < min := by
  rw [read, checked_eq_error_iff]
  simp only [whole_element_eq_ok_iff, validate_eq_error_iff]
  constructor
  · rintro (hwhole | ⟨r, hnotates, most, hmost, hlt, hsame⟩)
    · obtain ⟨expected, rest, hmalformed⟩ := malformed_of_whole_element hwhole
      cases hmalformed
    · obtain ⟨rfl, rfl⟩ := Error.repeatInverted.inj hsame
      rw [hmost] at hnotates
      exact ⟨hnotates, hlt⟩
  · rintro ⟨hnotates, hlt⟩
    exact .inr ⟨⟨min, some max⟩, hnotates, max, rfl, hlt, rfl⟩

/-- A bound of the two has more than 64 bits. -/
def TooLarge (min : Nat) (max : Option Nat) : Prop := 2 ^ 64 ≤ min ∨ ∃ most ∈ max, 2 ^ 64 ≤ most

theorem not_tooLarge (r : Repeat) : ¬TooLarge r.min.toNat (r.max.map UInt64.toNat) := by
  rintro (hmin | ⟨most, hmost, hlarge⟩)
  · exact absurd r.min.toNat_lt (Nat.not_lt.2 hmin)
  · obtain ⟨max, -, rfl⟩ := Option.map_eq_some_iff.1 hmost
    exact absurd max.toNat_lt (Nat.not_lt.2 hlarge)

/-- Bounds that are not too large are held in 64 bits. -/
theorem exists_of_not_tooLarge {min : Nat} {max : Option Nat} (h : ¬TooLarge min max) :
    ∃ r : Repeat, r.min.toNat = min ∧ r.max.map UInt64.toNat = max := by
  have held {n : Nat} (hn : ¬2 ^ 64 ≤ n) : n.toUInt64.toNat = n :=
    UInt64.toNat_ofNat_of_lt' (Nat.lt_of_not_le hn)
  obtain ⟨hmin, hmax⟩ := not_or.1 h
  cases max with
  | none => exact ⟨⟨min.toUInt64, none⟩, held hmin, rfl⟩
  | some most =>
    have hmost : ¬2 ^ 64 ≤ most := fun hle => hmax ⟨most, rfl, hle⟩
    exact ⟨⟨min.toUInt64, some most.toUInt64⟩, held hmin, congrArg some (held hmost)⟩

/-- **What is malformed is no notation, or that of a bound of more than 64 bits.** -/
theorem read_malformed_iff {s : Text} :
    (∃ expected rest, read s = .error (.malformed expected rest)) ↔
      ∀ min max, Notates s.trim min max → TooLarge min max := by
  constructor
  · rintro ⟨expected, rest, h⟩ min max hnotates
    by_contra hlarge
    obtain ⟨r, rfl, rfl⟩ := exists_of_not_tooLarge hlarge
    rw [read_of_notates hnotates] at h
    cases hvalidate : r.validate with
    | ok _ =>
      rw [hvalidate] at h
      cases h
    | error e =>
      obtain ⟨most, -, -, rfl⟩ := validate_eq_error_iff.1 hvalidate
      rw [hvalidate] at h
      cases h
  · intro h
    cases hwhole : whole element s with
    | ok r => exact absurd (h _ _ (whole_element_eq_ok_iff.1 hwhole)) (not_tooLarge r)
    | error e =>
      obtain ⟨expected, rest, rfl⟩ := malformed_of_whole_element hwhole
      refine ⟨expected, rest, ?_⟩
      rw [read, hwhole]
      rfl

/-- **A number of occurrences is read from its notations,** a count or a star with a number or
nothing on either side, with the bounds that these spell.  Bounds out of order are refused as such,
and a text that is no notation is malformed.  So is a notation with a bound of more than 64 bits:
nothing is read from it, neither without that bound nor with another one. -/
theorem read_iff_bounds (s : Text) :
    (∀ r, read s = .ok r ↔
        Notates s.trim r.min.toNat (r.max.map UInt64.toNat) ∧
          ∀ most, r.max = some most → r.min ≤ most) ∧
      (∀ min max, read s = .error (.repeatInverted min max) ↔
        Notates s.trim min.toNat (some max.toNat) ∧ max < min) ∧
      ((∃ expected rest, read s = .error (.malformed expected rest)) ↔
        ∀ min max, Notates s.trim min max → TooLarge min max) ∧
      ∀ min max, Notates s.trim min max → TooLarge min max →
        ∃ expected rest, read s = .error (.malformed expected rest) := by
  refine ⟨fun r => read_eq_ok_iff, fun min max => read_eq_inverted_iff, read_malformed_iff,
    fun min max hnotates hlarge => read_malformed_iff.2 fun min' max' hnotates' => ?_⟩
  obtain ⟨rfl, rfl⟩ := hnotates.unique hnotates'
  exact hlarge

/-- Zeros in front of a number, bounds out of order, and a number of 65 bits before and after a
star: the hypotheses of `read_iff_bounds` are satisfiable. -/
theorem read_iff_bounds_large :
    let large : Text := "18446744073709551616".toList
    Notates (Text.trim " 007* ".toList) 7 none ∧ read " 007* ".toList = .ok (atLeast 7) ∧
      read "9*1".toList = .error (.repeatInverted 9 1) ∧
      (Notates (large ++ ['*']) (2 ^ 64) none ∧ TooLarge (2 ^ 64) none ∧
        ∃ expected rest, read (large ++ ['*']) = .error (.malformed expected rest)) ∧
      (Notates ('*' :: large) 0 (some (2 ^ 64)) ∧ TooLarge 0 (some (2 ^ 64)) ∧
        ∃ expected rest, read ('*' :: large) = .error (.malformed expected rest)) := by
  intro large
  have hlarge : Spells 10 large (2 ^ 64) :=
    Text.Numeral.spells_write (by decide) (by decide) (2 ^ 64)
  have hseven : Spells 10 ['7'] 7 := Text.Numeral.spells_write (by decide) (by decide) 7
  have hzeros : Spells 10 ['0', '0', '7'] 7 :=
    (hseven.cons_zero ⟨by decide, by decide⟩).cons_zero ⟨by decide, by decide⟩
  have hleast : Notates (large ++ ['*']) (2 ^ 64) none := .star (.given hlarge) .absent
  have hgreatest : Notates ('*' :: large) 0 (some (2 ^ 64)) := .star .absent (.given hlarge)
  have hcount : Notates ['0', '0', '7', '*'] 7 none := .star (.given hzeros) .absent
  have hinverted : Notates ['9', '*', '1'] 9 (some 1) :=
    .star (.given (Text.Numeral.spells_write (by decide) (by decide) 9))
      (.given (Text.Numeral.spells_write (by decide) (by decide) 1))
  exact ⟨hcount, ((read_iff_bounds _).1 (atLeast 7)).2 ⟨hcount, nofun⟩,
    ((read_iff_bounds _).2.1 9 1).2 ⟨hinverted, by decide⟩,
    ⟨hleast, .inl (Nat.le_refl _), (read_iff_bounds _).2.2.2 _ _ hleast (.inl (Nat.le_refl _))⟩,
    hgreatest, .inr ⟨_, rfl, Nat.le_refl _⟩,
    (read_iff_bounds _).2.2.2 _ _ hgreatest (.inr ⟨_, rfl, Nat.le_refl _⟩)⟩

/-! ## Writing -/

theorem spells_digits (n : UInt64) : Spells 10 (digits n) n.toNat :=
  Text.Numeral.spells_write (by decide) (by decide) _

/-- **What is written for bounds is one of their notations.** -/
theorem notates_render (r : Repeat) : Notates r.render r.min.toNat (r.max.map UInt64.toNat) := by
  obtain ⟨min, max⟩ := r
  unfold render
  cases max with
  | none =>
    dsimp only
    split
    · rename_i hzero
      subst hzero
      exact .star .absent .absent
    · exact .star (.given (spells_digits min)) .absent
  | some max =>
    dsimp only
    split
    · rename_i hsame
      subst hsame
      exact .count (spells_digits min)
    · split
      · rename_i hzero
        subst hzero
        exact .star .absent (.given (spells_digits max))
      · exact .star (.given (spells_digits min)) (.given (spells_digits max))

theorem Notates.isBlank_eq_false {s : Text} {min : Nat} {max : Option Nat}
    (h : Notates s min max) : ∀ c ∈ s, Text.isBlank c = false := by
  have hblank {digits : Text} {bound : Option Nat} (h : Bound digits bound) :
      ∀ c ∈ digits, Text.isBlank c = false := fun c hc =>
    Text.Numeral.isBlank_eq_false_of_isDigit (h.forall_isDigit c hc)
  intro c hc
  cases h with
  | count hdigits => exact hblank (.given hdigits) c hc
  | star hstart hstop =>
    rw [List.mem_append, List.mem_cons] at hc
    rcases hc with hc | rfl | hc
    · exact hblank hstart c hc
    · rfl
    · exact hblank hstop c hc

/-- **Writing and reading are inverse.**  Bounds in order are read from what is written for them.
Others are refused when it is read, as `validate` refuses them: with the least number and the
greatest, which is below it.  What is written for different bounds differs, in order or not. -/
theorem read_render_eq_validate :
    (∀ r : Repeat, read r.render = r.validate.map fun _ => r) ∧
      (∀ (r : Repeat) (e : Error), r.validate = .error e ↔
        ∃ most, r.max = some most ∧ most < r.min ∧ e = .repeatInverted r.min most) ∧
      Function.Injective render := by
  refine ⟨fun r => ?_, fun r e => validate_eq_error_iff, fun r r' hsame => ?_⟩
  · have hnotates := notates_render r
    have htrim : r.render.trim = r.render :=
      Text.trim_eq_self_of_forall hnotates.isBlank_eq_false
    exact read_of_notates (htrim.symm ▸ hnotates)
  · have hnotates := notates_render r'
    rw [← hsame] at hnotates
    obtain ⟨hmin, hmax⟩ := (notates_render r).unique hnotates
    obtain ⟨min, max⟩ := r
    obtain ⟨min', max'⟩ := r'
    obtain rfl : min = min' := UInt64.toNat_inj.1 hmin
    obtain rfl : max = max' :=
      Option.map_injective (fun _ _ => UInt64.toNat_inj.1) hmax
    rfl

/-- Bounds with the greatest number of 64 bits at both ends, and such as are out of order. -/
example : read (between 0 18446744073709551615).render = .ok (between 0 18446744073709551615) ∧
    read (between 18446744073709551615 0).render =
      .error (.repeatInverted 18446744073709551615 0) := by
  constructor <;> cbv

end Repeat
end Notation
end Descent
