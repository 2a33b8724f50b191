/-
# What bytes are read as

The UTF-8 form of a text (`Text.Utf8.encode`) is that of its characters one after another.
Bytes are read as a text just when they are the form of one, and of that one.  What else they
may be is told apart at the first character that cannot be read, whose bytes come after the
longest text (`Invalid.Locates`):

| bytes after the longest text | fault |
| --- | --- |
| all of them begin the form of a character, and then they end | of no length |
| some of them do, and the next one does not fit | as long as those that do |
| the first one begins no form | of one byte |

A byte holds some bits of a number beside the mark that tells its place, and a number can be
spread over more bytes than its character takes (`spread`).  Such bytes, and those of a number
that belongs to no character, are refused at their first byte.

The table of first bytes is opened in `lead?_eq_none_iff` and `fits_of_lead?` alone; all that
follows rests on what these two say of it.  What `step` makes of the first two bytes is told once,
in `Steps`.
-/

import Descent.Grammar
import Mathlib.Algebra.Group.Nat.Defs
import Mathlib.Tactic.SplitIfs

namespace Descent
namespace Text
namespace Utf8

theorem encode_cons (c : Char) (t : Text) :
    encode (c :: t) = String.utf8EncodeChar c ++ encode t := List.flatMap_cons

/-- The number of bytes of a text is that of its form. -/
theorem length_encode (t : Text) : (encode t).length = t.byteLength := by
  induction t with
  | nil => rfl
  | cons c t ih =>
    rw [encode_cons, List.length_append, String.length_utf8EncodeChar, ih, byteLength_cons]

/-! ## Numbers spread over bytes -/

/-- The last `later` groups of six bits of a number, each after the bits `10` in its byte. -/
def sixes (number : Nat) : Nat → List UInt8
  | 0 => []
  | later + 1 => UInt8.ofNat (0x80 + number / 64 ^ later % 64) :: sixes number later

/-- The bytes that hold a number, `later` of them after the first.  Unless there is only one,
the first byte starts with as many set bits as there are bytes, and one that is not set. -/
def spread (number : Nat) : Nat → List UInt8
  | 0 => [UInt8.ofNat number]
  | later + 1 =>
    UInt8.ofNat (0x100 - 2 ^ (6 - later) + number / 64 ^ (later + 1)) :: sixes number (later + 1)

/-- The numbers below this one have room in so many bytes after the first. -/
def room : Nat → Nat
  | 0 => 2 ^ 7
  | later + 1 => 2 ^ (5 - later) * 64 ^ (later + 1)

/-- What the number of a character with `later` bytes after its second is without the bits of
these: the first two bytes hold it. -/
def Opens : Nat → Nat → Prop
  | 0, top => 0x80 ≤ top ∧ top < 0x800
  | 1, top => 0x20 ≤ top ∧ top < 0x400 ∧ ¬(0x360 ≤ top ∧ top < 0x380)
  | 2, top => 0x10 ≤ top ∧ top < 0x110
  | _, _ => False

theorem toNat_ofNat {n : Nat} (h : n.isValidChar) : (Char.ofNat n).toNat = n := by
  unfold Char.ofNat
  rw [dif_pos h]
  rfl

/-- How many bytes a character takes depends on its number. -/
theorem utf8Size_eq_iff (c : Char) (later : Nat) :
    c.utf8Size = later + 2 ↔
      (later = 0 ∧ 0x80 ≤ c.toNat ∧ c.toNat < 0x800) ∨
        (later = 1 ∧ 0x800 ≤ c.toNat ∧ c.toNat < 0x10000) ∨
        (later = 2 ∧ 0x10000 ≤ c.toNat) := by
  have two := Char.utf8Size_eq_two_iff (c := c)
  have three := Char.utf8Size_eq_three_iff (c := c)
  have four := Char.utf8Size_eq_four_iff (c := c)
  simp only [UInt32.lt_iff_toNat_lt, UInt32.le_iff_toNat_le, Char.toNat_val] at two three four
  have size := Char.utf8Size_eq c
  simp at two three four
  omega

/-- The numbers of the characters of two, three and four bytes are those that `Opens`
describes. -/
theorem opens_iff {later number : Nat} :
    Opens later (number / 64 ^ later) ↔ ∃ c : Char, c.toNat = number ∧ c.utf8Size = later + 2 := by
  constructor
  · intro h
    have hvalid : number.isValidChar := by
      match later, h with
      | 0, h | 1, h | 2, h =>
        simp only [Opens] at h
        omega
    refine ⟨Char.ofNat number, toNat_ofNat hvalid, (utf8Size_eq_iff _ _).2 ?_⟩
    rw [toNat_ofNat hvalid]
    match later, h with
    | 0, h | 1, h | 2, h =>
      simp only [Opens] at h
      omega
  · rintro ⟨c, rfl, hsize⟩
    have hvalid : c.toNat.isValidChar := c.valid
    rcases (utf8Size_eq_iff _ _).1 hsize with ⟨rfl, h⟩ | ⟨rfl, h⟩ | ⟨rfl, h⟩ <;>
    · simp only [Opens]
      omega

/-! ## First bytes -/

theorem lead?_eq_none_iff {b : UInt8} : lead? b = none ↔ b.toNat < 0xC2 ∨ 0xF4 < b.toNat := by
  have hsize := b.toNat_lt
  unfold lead?
  simp only [UInt8.le_iff_toNat_le, ← UInt8.toNat_inj, UInt8.toNat_ofNat]
  split_ifs <;> simp <;> omega

/-- **What a first byte says of a character:** how many bytes follow the second one, the topmost
bits of the number, and the second bytes with which it opens the form of a character. -/
structure Lead.Fits (lead : Lead) (b : UInt8) : Prop where
  later : lead.later ≤ 2
  bits : lead.bits < 2 ^ (5 - lead.later)
  byte : b.toNat = 0x100 - 2 ^ (6 - lead.later) + lead.bits
  ordered : lead.least ≤ lead.greatest
  second : ∀ second : UInt8, lead.least ≤ second ∧ second ≤ lead.greatest ↔
    0x80 ≤ second.toNat ∧ second.toNat ≤ 0xBF ∧
      Opens lead.later (lead.bits * 64 + (second.toNat - 0x80))

theorem fits_of_lead? {b : UInt8} {lead : Lead} (h : lead? b = some lead) : lead.Fits b := by
  unfold lead? at h
  simp only [UInt8.le_iff_toNat_le, ← UInt8.toNat_inj, UInt8.toNat_ofNat] at h
  split_ifs at h <;> obtain rfl := Option.some.inj h
  all_goals
    refine ⟨by simp, ?_, ?_, by dsimp only; decide, fun second => ?_⟩
    · simp only
      omega
    · simp only
      omega
    · simp only [UInt8.le_iff_toNat_le, UInt8.toNat_ofNat, Opens]
      omega

/-! ## The bytes after the second -/

theorem toNat_six (n : Nat) : (UInt8.ofNat (0x80 + n % 64)).toNat = 0x80 + n % 64 :=
  UInt8.toNat_ofNat_of_lt' (by simp only [UInt8.size]; omega)

/-- A later byte adds its six bits to a number. -/
theorem div_pow_succ (n later : Nat) :
    n / 64 ^ (later + 1) * 64 + n / 64 ^ later % 64 = n / 64 ^ later := by
  rw [Nat.pow_succ, ← Nat.div_div_eq_div_mul]
  omega

theorem finish_sixes (number seen later : Nat) (rest : List UInt8) :
    finish (number / 64 ^ later) seen later (sixes number later ++ rest) =
      .char (Char.ofNat number) rest := by
  induction later generalizing seen with
  | zero => simp [finish, sixes]
  | succ later ih =>
    have hbyte := toNat_six (number / 64 ^ later)
    have hin : (0x80 : UInt8) ≤ UInt8.ofNat (0x80 + number / 64 ^ later % 64) ∧
        UInt8.ofNat (0x80 + number / 64 ^ later % 64) ≤ (0xBF : UInt8) := by
      simp only [UInt8.le_iff_toNat_le, hbyte, UInt8.toNat_ofNat]
      omega
    rw [sixes, List.cons_append, finish, if_pos hin, hbyte, Nat.add_sub_cancel_left, div_pow_succ]
    exact ih _

/-- What is read as the end of a character holds the last bits of its number. -/
theorem eq_sixes_of_finish {top seen later : Nat} {bytes rest : List UInt8} {c : Char}
    (h : finish top seen later bytes = .char c rest) :
    ∃ number, number / 64 ^ later = top ∧ c = Char.ofNat number ∧
      bytes = sixes number later ++ rest := by
  induction later generalizing top seen bytes with
  | zero =>
    obtain ⟨rfl, rfl⟩ := Step.char.inj h
    exact ⟨top, by simp, rfl, rfl⟩
  | succ later ih =>
    cases bytes with
    | nil => simp [finish] at h
    | cons b bytes =>
      unfold finish at h
      split at h
      · rename_i hin
        simp only [UInt8.le_iff_toNat_le, UInt8.toNat_ofNat] at hin
        obtain ⟨number, hnumber, hc, hbytes⟩ := ih h
        have hbyte : UInt8.ofNat (0x80 + number / 64 ^ later % 64) = b := by
          apply UInt8.toNat_inj.1
          rw [toNat_six]
          omega
        refine ⟨number, ?_, hc, ?_⟩
        · rw [Nat.pow_succ, ← Nat.div_div_eq_div_mul]
          omega
        · rw [sixes, hbyte, hbytes, List.cons_append]
      · cases h

/-- Any number is brought to its end by some bytes. -/
theorem exists_finish (top seen later : Nat) :
    ∃ more c, finish top seen later more = .char c [] := by
  have hfinish := finish_sixes (top * 64 ^ later) seen later []
  rw [Nat.mul_div_cancel _ (Nat.pow_pos (by decide)), List.append_nil] at hfinish
  exact ⟨_, _, hfinish⟩

/-- Where bytes end too early, others would have brought the character to its end. -/
theorem exists_of_finish_truncated {top seen later : Nat} {bytes : List UInt8}
    (h : finish top seen later bytes = .truncated) :
    ∃ more c, more ≠ [] ∧ finish top seen later (bytes ++ more) = .char c [] := by
  induction later generalizing top seen bytes with
  | zero => cases h
  | succ later ih =>
    cases bytes with
    | nil =>
      obtain ⟨more, c, hc⟩ := exists_finish top seen (later + 1)
      refine ⟨more, c, ?_, hc⟩
      rintro rfl
      cases hc
    | cons b bytes =>
      unfold finish at h
      split at h
      · rename_i hin
        obtain ⟨more, c, hmore, hc⟩ := ih h
        refine ⟨more, c, hmore, ?_⟩
        rw [List.cons_append, finish, if_pos hin]
        exact hc
      · cases h

/-- The bytes before the one that does not fit would be the beginning of a character if they
ended there, and the one that does not fit is refused whatever comes after it. -/
theorem of_finish_malformed {top seen later n : Nat} {bytes : List UInt8}
    (h : finish top seen later bytes = .malformed n) :
    ∃ k, n = seen + k ∧ k < later ∧ k < bytes.length ∧
      finish top seen later (bytes.take k) = .truncated ∧
      ∀ more, finish top seen later (bytes.take (k + 1) ++ more) = .malformed n := by
  induction later generalizing top seen bytes with
  | zero => cases h
  | succ later ih =>
    cases bytes with
    | nil => cases h
    | cons b bytes =>
      unfold finish at h
      split at h
      · rename_i hin
        obtain ⟨k, rfl, hlater, hlength, hcut, hmore⟩ := ih h
        refine ⟨k + 1, by omega, by omega, by simpa using hlength, ?_, fun more => ?_⟩
        · rw [List.take_succ_cons, finish, if_pos hin]
          exact hcut
        · rw [List.take_succ_cons, List.cons_append, finish, if_pos hin]
          exact hmore more
      · rename_i hout
        obtain rfl := Step.malformed.inj h
        refine ⟨0, rfl, by omega, by simp, rfl, fun more => ?_⟩
        rw [List.take_succ_cons, List.cons_append, finish, if_neg hout]

/-! ## The form of one character -/

/-- The form of a character is its number, spread over as many bytes as the character takes. -/
theorem utf8EncodeChar_eq_spread {c : Char} {later : Nat} (h : c.utf8Size = later + 1) :
    String.utf8EncodeChar c = spread c.toNat later := by
  have hvalid : c.toNat.isValidChar := c.valid
  cases later with
  | zero =>
    have hbyte : c.val.toUInt8 = UInt8.ofNat c.toNat := rfl
    rw [String.utf8EncodeChar_eq_singleton h, hbyte]
    rfl
  | succ later =>
    unfold String.utf8EncodeChar
    simp only [Char.toNat_val]
    rcases (utf8Size_eq_iff _ _).1 h with ⟨rfl, hc⟩ | ⟨rfl, hc⟩ | ⟨rfl, hc⟩ <;>
    · split_ifs
      all_goals
        simp only [spread, sixes, List.cons.injEq, ← UInt8.toNat_inj, UInt8.toNat_ofNat', and_true]
      all_goals omega

theorem step_of_lt {b : UInt8} (h : b.toNat < 0x80) (bytes : List UInt8) :
    step b bytes = .char (Char.ofNat b.toNat) bytes := by
  have hlt : b < 0x80 := UInt8.lt_iff_toNat_lt.2 h
  unfold step
  rw [if_pos hlt]

theorem step_of_none {b : UInt8} (h : 0x80 ≤ b.toNat) (hlead : lead? b = none)
    (bytes : List UInt8) : step b bytes = .malformed 1 := by
  have hge : ¬b < 0x80 := fun hlt => Nat.not_lt.2 h (UInt8.lt_iff_toNat_lt.1 hlt)
  unfold step
  rw [if_neg hge, hlead]

/-- The first byte of a longer form is above those of the characters of one byte. -/
theorem le_mark (later bits : Nat) : 0x80 ≤ 0x100 - 2 ^ (6 - later) + bits := by
  have hpow : 2 ^ (6 - later) ≤ 2 ^ 6 := Nat.pow_le_pow_right (by decide) (by omega)
  omega

theorem Lead.Fits.not_lt {lead : Lead} {b : UInt8} (h : lead.Fits b) : ¬b < 0x80 := by
  rw [UInt8.lt_iff_toNat_lt, h.byte]
  exact Nat.not_lt.2 (le_mark _ _)

theorem step_nil {b : UInt8} {lead : Lead} (h : lead? b = some lead) : step b [] = .truncated := by
  unfold step
  rw [if_neg (fits_of_lead? h).not_lt, h]

theorem step_cons {b : UInt8} {lead : Lead} (h : lead? b = some lead) (second : UInt8)
    (bytes : List UInt8) :
    step b (second :: bytes) =
      if lead.least ≤ second ∧ second ≤ lead.greatest then
        finish (lead.bits * 64 + (second.toNat - 0x80)) 2 lead.later bytes
      else .malformed 1 := by
  unfold step
  rw [if_neg (fits_of_lead? h).not_lt, h]

/-- The first byte of a longer form, as a number. -/
theorem toNat_mark {later bits : Nat} (hlater : later ≤ 4) (hbits : bits < 2 ^ (5 - later)) :
    (UInt8.ofNat (0x100 - 2 ^ (6 - later) + bits)).toNat = 0x100 - 2 ^ (6 - later) + bits := by
  apply UInt8.toNat_ofNat_of_lt'
  simp only [UInt8.size]
  obtain rfl | rfl | rfl | rfl | rfl :
      later = 0 ∨ later = 1 ∨ later = 2 ∨ later = 3 ∨ later = 4 := by
    omega
  all_goals omega

/-- The first byte of a longer form has one reading. -/
theorem Lead.Fits.unique {lead : Lead} {b : UInt8} (h : lead.Fits b) {later bits : Nat}
    (hlater : later ≤ 4) (hbits : bits < 2 ^ (5 - later))
    (hbyte : b.toNat = 0x100 - 2 ^ (6 - later) + bits) : lead.later = later ∧ lead.bits = bits := by
  obtain ⟨hlater', hbits', hbyte', -, -⟩ := h
  obtain ⟨bits', least, greatest, later'⟩ := lead
  simp only at *
  obtain rfl | rfl | rfl : later' = 0 ∨ later' = 1 ∨ later' = 2 := by omega
  all_goals
    obtain rfl | rfl | rfl | rfl | rfl : later = 0 ∨ later = 1 ∨ later = 2 ∨ later = 3 ∨
        later = 4 := by
      omega
    all_goals omega

/-- The first byte of a character lies in the table. -/
theorem mark_of_opens {later number : Nat} (h : Opens later (number / 64 ^ later)) :
    later ≤ 2 ∧ number / 64 ^ (later + 1) < 2 ^ (5 - later) ∧
      0xC2 ≤ 0x100 - 2 ^ (6 - later) + number / 64 ^ (later + 1) ∧
      0x100 - 2 ^ (6 - later) + number / 64 ^ (later + 1) ≤ 0xF4 := by
  match later, h with
  | 0, h | 1, h | 2, h =>
    simp only [Opens] at h
    omega

/-- **What can stand at the head of some bytes,** by how far the first two of them are read. -/
inductive Steps (b : UInt8) : List UInt8 → Step → Prop where
  | alone {bytes : List UInt8} :
      b.toNat < 0x80 → Steps b bytes (.char (Char.ofNat b.toNat) bytes)
  | noLead {bytes : List UInt8} :
      0x80 ≤ b.toNat → lead? b = none → Steps b bytes (.malformed 1)
  | noSecond {lead : Lead} : lead? b = some lead → Steps b [] .truncated
  | fits {lead : Lead} {second : UInt8} {bytes : List UInt8} {found : Step} :
      lead? b = some lead → lead.least ≤ second ∧ second ≤ lead.greatest →
      finish (lead.bits * 64 + (second.toNat - 0x80)) 2 lead.later bytes = found →
      Steps b (second :: bytes) found
  | unfit {lead : Lead} {second : UInt8} {bytes : List UInt8} :
      lead? b = some lead → ¬(lead.least ≤ second ∧ second ≤ lead.greatest) →
      Steps b (second :: bytes) (.malformed 1)

theorem steps {b : UInt8} {bytes : List UInt8} {found : Step} (h : step b bytes = found) :
    Steps b bytes found := by
  subst h
  by_cases hsmall : b.toNat < 0x80
  · rw [step_of_lt hsmall]
    exact .alone hsmall
  · cases hlead : lead? b with
    | none =>
      rw [step_of_none (by omega) hlead]
      exact .noLead (by omega) hlead
    | some lead =>
      cases bytes with
      | nil =>
        rw [step_nil hlead]
        exact .noSecond hlead
      | cons second bytes =>
        rw [step_cons hlead]
        split
        · rename_i hin
          exact .fits hlead hin rfl
        · rename_i hout
          exact .unfit hlead hout

/-- **A number spread over several bytes** is read if it is that of a character whose form they
are, and refused at the first of them if it is not. -/
theorem step_of_spread {number later : Nat} {b : UInt8} {bytes rest : List UInt8}
    (hlater : later ≤ 4) (hbits : number / 64 ^ (later + 1) < 2 ^ (5 - later))
    (h : b :: bytes = spread number (later + 1) ++ rest) :
    (Opens later (number / 64 ^ later) → step b bytes = .char (Char.ofNat number) rest) ∧
      (¬Opens later (number / 64 ^ later) → step b bytes = .malformed 1) := by
  have hbyte := toNat_mark hlater hbits
  rw [spread, List.cons_append] at h
  obtain ⟨rfl, rfl⟩ := List.cons.inj h
  cases hlead : lead? (UInt8.ofNat (0x100 - 2 ^ (6 - later) + number / 64 ^ (later + 1))) with
  | none =>
    refine ⟨fun hopens => ?_, fun _ => step_of_none ?_ hlead _⟩
    · obtain ⟨-, -, hmark⟩ := mark_of_opens hopens
      have hout := lead?_eq_none_iff.1 hlead
      omega
    · rw [hbyte]
      exact le_mark _ _
  | some lead =>
    have hfits := fits_of_lead? hlead
    obtain ⟨rfl, hsame⟩ := hfits.unique hlater hbits hbyte
    have hsix := toNat_six (number / 64 ^ lead.later)
    have hsecond : (lead.least ≤ UInt8.ofNat (0x80 + number / 64 ^ lead.later % 64) ∧
        UInt8.ofNat (0x80 + number / 64 ^ lead.later % 64) ≤ lead.greatest) ↔
          Opens lead.later (number / 64 ^ lead.later) := by
      rw [hfits.second, hsix, Nat.add_sub_cancel_left, hsame, div_pow_succ]
      exact ⟨fun hin => hin.2.2, fun hopens => ⟨by omega, by omega, hopens⟩⟩
    rw [sixes, List.cons_append, step_cons hlead]
    constructor
    · intro hopens
      rw [if_pos (hsecond.2 hopens), hsix, Nat.add_sub_cancel_left, hsame, div_pow_succ,
        finish_sixes]
    · intro hother
      rw [if_neg (mt hsecond.1 hother)]

/-- **The form of a character is read as the character.** -/
theorem step_form {c : Char} {b : UInt8} {bytes rest : List UInt8}
    (h : b :: bytes = String.utf8EncodeChar c ++ rest) : step b bytes = .char c rest := by
  obtain ⟨size, hsize⟩ : ∃ size, c.utf8Size = size + 1 :=
    ⟨c.utf8Size - 1, by have := c.utf8Size_pos; omega⟩
  rw [utf8EncodeChar_eq_spread hsize] at h
  cases size with
  | zero =>
    have hsmall : c.toNat ≤ 0x7F := by
      have hle := UInt32.le_iff_toNat_le.1 (Char.utf8Size_eq_one_iff.1 hsize)
      simpa using hle
    obtain ⟨rfl, rfl⟩ := List.cons.inj h
    have hbyte : (UInt8.ofNat c.toNat).toNat = c.toNat :=
      UInt8.toNat_ofNat_of_lt' (by simp only [UInt8.size]; omega)
    rw [step_of_lt (by omega), hbyte, Char.ofNat_toNat]
  | succ later =>
    have hopens : Opens later (c.toNat / 64 ^ later) := opens_iff.2 ⟨c, rfl, hsize⟩
    obtain ⟨hlater, hbits, -⟩ := mark_of_opens hopens
    rw [(step_of_spread (by omega) hbits h).1 hopens, Char.ofNat_toNat]

/-- **What is read as a character is its form.** -/
theorem form_of_step {c : Char} {b : UInt8} {bytes rest : List UInt8}
    (h : step b bytes = .char c rest) : b :: bytes = String.utf8EncodeChar c ++ rest := by
  cases steps h with
  | alone hsmall =>
    have hnumber : (Char.ofNat b.toNat).toNat = b.toNat := toNat_ofNat (.inl (by omega))
    have hsize : (Char.ofNat b.toNat).utf8Size = 0 + 1 := by
      apply Char.utf8Size_eq_one_iff.2
      rw [UInt32.le_iff_toNat_le, Char.toNat_val, hnumber]
      exact Nat.le_of_lt_succ hsmall
    rw [utf8EncodeChar_eq_spread hsize, hnumber, spread, UInt8.ofNat_toNat]
    rfl
  | @fits lead second bytes _ hlead hin hfinish =>
    have hfits := fits_of_lead? hlead
    obtain ⟨hleast, hgreatest, hopens⟩ := (hfits.second second).1 hin
    obtain ⟨number, hnumber, rfl, rfl⟩ := eq_sixes_of_finish hfinish
    rw [← hnumber] at hopens
    obtain ⟨c, rfl, hsize⟩ := opens_iff.1 hopens
    have hbits : c.toNat / 64 ^ (lead.later + 1) = lead.bits := by
      rw [Nat.pow_succ, ← Nat.div_div_eq_div_mul, hnumber]
      omega
    have hbyte : UInt8.ofNat (0x100 - 2 ^ (6 - lead.later) + lead.bits) = b := by
      rw [← hfits.byte, UInt8.ofNat_toNat]
    have hsix : UInt8.ofNat (0x80 + c.toNat / 64 ^ lead.later % 64) = second := by
      apply UInt8.toNat_inj.1
      rw [toNat_six, hnumber]
      omega
    rw [Char.ofNat_toNat, utf8EncodeChar_eq_spread hsize, spread, hbits, hbyte, sixes, hsix]
    rfl

/-- **A number that is spread over bytes in another way than its character is refused** at the
first of these bytes, and so is one that has no character. -/
theorem step_spread {number later : Nat} {b : UInt8} {bytes rest : List UInt8} (hlater : later ≤ 5)
    (hroom : number < room later) (hother : ∀ c : Char, c.toNat = number → c.utf8Size ≠ later + 1)
    (h : b :: bytes = spread number later ++ rest) : step b bytes = .malformed 1 := by
  cases later with
  | zero =>
    have hvalid : number.isValidChar := .inl (by simp only [room] at hroom; omega)
    refine absurd (Char.utf8Size_eq_one_iff.2 ?_) (hother _ (toNat_ofNat hvalid))
    rw [UInt32.le_iff_toNat_le, Char.toNat_val, toNat_ofNat hvalid]
    exact Nat.le_of_lt_succ hroom
  | succ later =>
    have hbits : number / 64 ^ (later + 1) < 2 ^ (5 - later) :=
      (Nat.div_lt_iff_lt_mul (Nat.pow_pos (by decide))).2 hroom
    refine (step_of_spread (by omega) hbits h).2 fun hopens => ?_
    obtain ⟨c, hc, hsize⟩ := opens_iff.1 hopens
    exact hother c hc hsize

/-! ## Beginnings of characters -/

/-- The bytes begin the form of a character, which may end with them. -/
def Begins (bytes : List UInt8) : Prop := ∃ c, bytes <+: String.utf8EncodeChar c

/-- The bytes begin the form of a character and end before it does. -/
def CutOff (bytes : List UInt8) : Prop :=
  ∃ c, bytes <+: String.utf8EncodeChar c ∧ bytes ≠ String.utf8EncodeChar c

/-- Bytes that are refused whatever comes after them begin no character. -/
theorem not_begins_of_malformed {b : UInt8} {bytes : List UInt8} {n : Nat}
    (h : ∀ more, step b (bytes ++ more) = .malformed n) : ¬Begins (b :: bytes) := by
  rintro ⟨c, more, hc⟩
  have hread : step b (bytes ++ more) = .char c [] :=
    step_form (by rw [List.append_nil, ← hc, List.cons_append])
  rw [h more] at hread
  cases hread

theorem cutOff_of_truncated {b : UInt8} {bytes : List UInt8} (h : step b bytes = .truncated) :
    CutOff (b :: bytes) := by
  suffices hmore : ∃ more c, more ≠ [] ∧ step b (bytes ++ more) = .char c [] by
    obtain ⟨more, c, hne, hread⟩ := hmore
    have hform : b :: (bytes ++ more) = String.utf8EncodeChar c := by
      rw [form_of_step hread, List.append_nil]
    refine ⟨c, ⟨more, hform⟩, fun hall => hne ?_⟩
    rw [← hform, ← List.cons_append] at hall
    exact List.self_eq_append_right.1 hall
  cases steps h with
  | @noSecond lead hlead =>
    have hin : lead.least ≤ lead.least ∧ lead.least ≤ lead.greatest :=
      ⟨UInt8.le_refl _, (fits_of_lead? hlead).ordered⟩
    obtain ⟨more, c, hc⟩ :=
      exists_finish (lead.bits * 64 + (lead.least.toNat - 0x80)) 2 lead.later
    refine ⟨lead.least :: more, c, by simp, ?_⟩
    rw [List.nil_append, step_cons hlead, if_pos hin]
    exact hc
  | fits hlead hin hfinish =>
    obtain ⟨more, c, hne, hread⟩ := exists_of_finish_truncated hfinish
    refine ⟨more, c, hne, ?_⟩
    rw [List.cons_append, step_cons hlead, if_pos hin]
    exact hread

/-- **Bytes that begin no character** up to the one at fault: those before it begin one if there
are any, and with it they begin none.  A first byte may be at fault itself. -/
theorem of_step_malformed {b : UInt8} {bytes : List UInt8} {n : Nat}
    (h : step b bytes = .malformed n) :
    (n = 1 ∧ ∀ more, step b more = .malformed 1) ∨
      (1 ≤ n ∧ n ≤ 3 ∧ n ≤ bytes.length ∧ step b (bytes.take (n - 1)) = .truncated ∧
        ∀ more, step b (bytes.take n ++ more) = .malformed n) := by
  cases steps h with
  | noLead hlarge hlead => exact .inl ⟨rfl, step_of_none hlarge hlead⟩
  | fits hlead hin hfinish =>
    right
    obtain ⟨k, rfl, hk, hlength, hcut, hmore⟩ := of_finish_malformed hfinish
    have hlater := (fits_of_lead? hlead).later
    rw [Nat.add_comm 2 k] at hmore ⊢
    refine ⟨by omega, by omega, Nat.succ_le_succ hlength, ?_, fun more => ?_⟩
    · rw [Nat.add_sub_cancel (k + 1) 1, List.take_succ_cons, step_cons hlead, if_pos hin]
      exact hcut
    · rw [List.take_succ_cons, List.cons_append, step_cons hlead, if_pos hin]
      exact hmore more
  | unfit hlead hout =>
    refine .inr ⟨by decide, by decide, by simp, step_nil hlead, fun more => ?_⟩
    rw [List.take_succ_cons, List.cons_append, step_cons hlead, if_neg hout]

theorem malformed_append {b : UInt8} {bytes : List UInt8} {n : Nat}
    (h : step b bytes = .malformed n) (more : List UInt8) :
    step b (bytes ++ more) = .malformed n := by
  rcases of_step_malformed h with ⟨rfl, hall⟩ | ⟨-, -, -, -, hall⟩
  · exact hall _
  · rw [← List.take_append_drop n bytes, List.append_assoc]
    exact hall _

/-! ## All of the bytes -/

theorem decodeFrom_of_char {b : UInt8} {bytes rest : List UInt8} {c : Char}
    (h : step b bytes = .char c rest) (start : Nat) :
    decodeFrom start (b :: bytes) = (decodeFrom (start + c.utf8Size) rest).map (c :: ·) := by
  rw [decodeFrom]
  split
  · rename_i c' rest' h'
    obtain ⟨rfl, rfl⟩ := Step.char.inj (h'.symm.trans h)
    rfl
  · rename_i h'
    cases h'.symm.trans h
  · rename_i n h'
    cases h'.symm.trans h

theorem decodeFrom_of_malformed {b : UInt8} {bytes : List UInt8} {n : Nat}
    (h : step b bytes = .malformed n) (start : Nat) :
    decodeFrom start (b :: bytes) = .error ⟨start, some n⟩ := by
  rw [decodeFrom]
  split
  · rename_i h'
    cases h'.symm.trans h
  · rename_i h'
    cases h'.symm.trans h
  · rename_i m h'
    obtain rfl := Step.malformed.inj (h'.symm.trans h)
    rfl

/-- The form of a text at the head is read as the text. -/
theorem decodeFrom_encode_append (t : Text) (start : Nat) (bytes : List UInt8) :
    decodeFrom start (encode t ++ bytes) =
      (decodeFrom (start + t.byteLength) bytes).map (t ++ ·) := by
  induction t generalizing start with
  | nil => cases h : decodeFrom start bytes <;> simp [encode, Except.map, h]
  | cons c t ih =>
    obtain ⟨b, more, hform⟩ : ∃ b more, String.utf8EncodeChar c = b :: more :=
      List.exists_cons_of_ne_nil (String.utf8EncodeChar_ne_nil)
    have hstep : step b (more ++ (encode t ++ bytes)) = .char c (encode t ++ bytes) :=
      step_form (by rw [hform, List.cons_append])
    rw [encode_cons, List.append_assoc, hform, List.cons_append, decodeFrom_of_char hstep, ih,
      byteLength_cons, Nat.add_assoc]
    cases decodeFrom (start + (c.utf8Size + byteLength t)) bytes <;> rfl

/-- What is read as a text is its form. -/
theorem eq_encode_of_decodeFrom {start : Nat} {bytes : List UInt8} {t : Text}
    (h : decodeFrom start bytes = .ok t) : bytes = encode t := by
  fun_induction decodeFrom start bytes generalizing t with
  | case1 start =>
    obtain rfl := Except.ok.inj h
    rfl
  | case2 start b bytes c rest hstep ih =>
    cases hrest : decodeFrom (start + c.utf8Size) rest with
    | error fault =>
      rw [hrest] at h
      cases h
    | ok t' =>
      rw [hrest] at h
      obtain rfl : c :: t' = t := Except.ok.inj h
      rw [form_of_step hstep, ih hrest, encode_cons]
  | case3 start b bytes hstep => cases h
  | case4 start b bytes n hstep => cases h

/-- **Bytes that are no text** are the form of one up to a place, and no character stands there. -/
theorem of_decodeFrom_error {start : Nat} {bytes : List UInt8} {fault : Invalid}
    (h : decodeFrom start bytes = .error fault) :
    ∃ t b rest, bytes = encode t ++ b :: rest ∧ fault.validUpTo = start + t.byteLength ∧
      ((step b rest = .truncated ∧ fault.errorLength = none) ∨
        ∃ n, step b rest = .malformed n ∧ fault.errorLength = some n) := by
  fun_induction decodeFrom start bytes with
  | case1 start => cases h
  | case2 start b bytes c rest hstep ih =>
    cases hrest : decodeFrom (start + c.utf8Size) rest with
    | error fault' =>
      rw [hrest] at h
      obtain rfl : fault' = fault := Except.error.inj h
      obtain ⟨t, b', rest', rfl, hplace, hfault⟩ := ih hrest
      refine ⟨c :: t, b', rest', ?_, ?_, hfault⟩
      · rw [form_of_step hstep, encode_cons, List.append_assoc]
      · rw [hplace, byteLength_cons, Nat.add_assoc]
    | ok t =>
      rw [hrest] at h
      cases h
  | case3 start b bytes hstep =>
    obtain rfl := Except.error.inj h
    exact ⟨[], b, bytes, rfl, rfl, .inl ⟨hstep, rfl⟩⟩
  | case4 start b bytes n hstep =>
    obtain rfl := Except.error.inj h
    exact ⟨[], b, bytes, rfl, rfl, .inr ⟨n, hstep, rfl⟩⟩

/-- **Where a fault lies, and how long it is.**  Before it stands the longest text with which the
bytes begin.  It has no length when the bytes after that text end inside a character, and else
that of the longest beginning of a character there, but at least one byte. -/
structure Invalid.Locates (fault : Invalid) (bytes : List UInt8) : Prop where
  valid : ∃ t, encode t <+: bytes ∧ (encode t).length = fault.validUpTo
  longest : ∀ t, encode t <+: bytes → (encode t).length ≤ fault.validUpTo
  cutOff : fault.errorLength = none ↔ CutOff (bytes.drop fault.validUpTo)
  length : ∀ n, fault.errorLength = some n → n ≤ 3 ∧
    ∃ begun, begun <+: bytes.drop fault.validUpTo ∧ Begins begun ∧
      (∀ other, other <+: bytes.drop fault.validUpTo → Begins other →
        other.length ≤ begun.length) ∧
      n = max 1 begun.length

/-- The longest beginning of a character among bytes that are refused. -/
theorem exists_longest_of_malformed {b : UInt8} {bytes : List UInt8} {n : Nat}
    (h : step b bytes = .malformed n) :
    n ≤ 3 ∧ ∃ begun, begun <+: b :: bytes ∧ Begins begun ∧
      (∀ other, other <+: b :: bytes → Begins other → other.length ≤ begun.length) ∧
      n = max 1 begun.length := by
  rcases of_step_malformed h with ⟨rfl, hall⟩ | ⟨hpos, hle, hlength, hcut, hall⟩
  · refine ⟨by decide, [], List.nil_prefix, ⟨'a', List.nil_prefix⟩, fun other hother hbegins => ?_,
      rfl⟩
    cases other with
    | nil => exact Nat.le_refl 0
    | cons b' other =>
      obtain rfl : b' = b := (List.cons_prefix_cons.1 hother).1
      exact absurd hbegins (not_begins_of_malformed fun more => hall (other ++ more))
  · have hbegun : (b :: bytes.take (n - 1)).length = n := by
      rw [List.length_cons, List.length_take]
      omega
    obtain ⟨c, hbegins, -⟩ := cutOff_of_truncated hcut
    refine ⟨hle, b :: bytes.take (n - 1), (List.cons_prefix_cons.2 ⟨rfl, List.take_prefix _ _⟩),
      ⟨c, hbegins⟩, fun other hother hother' => ?_, ?_⟩
    · rw [hbegun]
      refine Nat.le_of_not_lt fun hlong => ?_
      cases other with
      | nil => simp at hlong
      | cons b' other =>
        obtain ⟨rfl, hprefix⟩ := List.cons_prefix_cons.1 hother
        have htake : other.take n = bytes.take n := by
          rw [List.prefix_iff_eq_take.1 hprefix, List.take_take]
          congr 1
          rw [List.length_cons] at hlong
          omega
        refine not_begins_of_malformed (n := n) (fun more => ?_) hother'
        rw [← List.take_append_drop n other, htake, List.append_assoc]
        exact hall _
    · rw [hbegun]
      omega

/-- No longer text is the beginning of bytes with a fault. -/
theorem length_le_validUpTo {bytes : List UInt8} {fault : Invalid} {t : Text}
    (h : decode bytes = .error fault) (ht : encode t <+: bytes) :
    (encode t).length ≤ fault.validUpTo := by
  obtain ⟨after, rfl⟩ := ht
  rw [decode, decodeFrom_encode_append] at h
  cases hafter : decodeFrom (0 + t.byteLength) after with
  | error fault' =>
    rw [hafter] at h
    obtain rfl : fault' = fault := Except.error.inj h
    obtain ⟨_, _, _, -, hplace, -⟩ := of_decodeFrom_error hafter
    rw [length_encode]
    omega
  | ok _ =>
    rw [hafter] at h
    cases h

/-- **A fault is located.** -/
theorem locates_of_decode_error {bytes : List UInt8} {fault : Invalid}
    (h : decode bytes = .error fault) : fault.Locates bytes := by
  obtain ⟨t, b, rest, hbytes, hplace, hfault⟩ := of_decodeFrom_error h
  have hlength : (encode t).length = fault.validUpTo := by
    rw [length_encode, hplace, Nat.zero_add]
  have hdrop : bytes.drop fault.validUpTo = b :: rest := by
    rw [hbytes, List.drop_left' hlength]
  refine ⟨⟨t, ⟨b :: rest, hbytes.symm⟩, hlength⟩, fun _ => length_le_validUpTo h, ?_,
    fun n hn => ?_⟩
  · rw [hdrop]
    rcases hfault with ⟨hstep, hnone⟩ | ⟨n, hstep, hsome⟩
    · exact iff_of_true hnone (cutOff_of_truncated hstep)
    · refine iff_of_false (by rw [hsome]; simp) ?_
      rintro ⟨c, hbegins, -⟩
      exact not_begins_of_malformed (malformed_append hstep) ⟨c, hbegins⟩
  · rw [hdrop]
    rcases hfault with ⟨-, hnone⟩ | ⟨m, hstep, hsome⟩
    · rw [hnone] at hn
      cases hn
    · obtain rfl : m = n := Option.some.inj (hsome.symm.trans hn)
      exact exists_longest_of_malformed hstep

theorem decode_encode (t : Text) : decode (encode t) = .ok t := by
  have hall := decodeFrom_encode_append t 0 []
  rw [List.append_nil, decodeFrom] at hall
  rw [decode, hall, Except.map, List.append_nil]

/-- **Only forms of texts are read,** each as its own text. -/
theorem decode_eq_ok_iff {bytes : List UInt8} {t : Text} :
    decode bytes = .ok t ↔ encode t = bytes :=
  ⟨fun h => (eq_encode_of_decodeFrom h).symm, fun h => h ▸ decode_encode t⟩

/-- A number spread over bytes in a way that no character is, after a text. -/
theorem decode_spread {number later : Nat} (hlater : later ≤ 5) (hroom : number < room later)
    (hother : ∀ c : Char, c.toNat = number → c.utf8Size ≠ later + 1) (t : Text)
    (after : List UInt8) :
    decode (encode t ++ (spread number later ++ after)) = .error ⟨t.byteLength, some 1⟩ := by
  obtain ⟨b, bytes, hbytes⟩ : ∃ b bytes, spread number later ++ after = b :: bytes := by
    cases later <;> exact ⟨_, _, rfl⟩
  have hstep := step_spread hlater hroom hother hbytes.symm
  rw [decode, decodeFrom_encode_append, hbytes, Nat.zero_add, decodeFrom_of_malformed hstep,
    Except.map]

end Utf8
end Text

namespace Grammar

open Text

variable {R : Type} [Tag R]

theorem parseBytes_of_decode_error {bytes : List UInt8} {fault : Utf8.Invalid}
    (h : Utf8.decode bytes = .error fault) (g : Grammar R) (name : Text) :
    g.parseBytes name bytes = some (.error (.encoding fault)) := by
  rw [parseBytes, h]

/-- **Bytes are parsed as the text whose form they are.**  When they are the form of no text, the
answer is the fault that they have, under every name and in every grammar.  A number that is
spread over up to six bytes in a way that no character is, such as that of a surrogate, one above
that of every character, or that of a character that takes fewer bytes, is a fault of one byte,
whatever follows it. -/
theorem parseBytes_reads_utf8 (g : Grammar R) (name : Text) :
    (∀ input, g.parseBytes name (Utf8.encode input) = g.parse name input) ∧
      (∀ bytes, (∀ input, Utf8.encode input ≠ bytes) →
        ∃ fault, g.parseBytes name bytes = some (.error (.encoding fault)) ∧
          fault.Locates bytes) ∧
      ∀ number later, later ≤ 5 → number < Utf8.room later →
        (∀ c : Char, c.toNat = number → c.utf8Size ≠ later + 1) → ∀ before after,
          g.parseBytes name (Utf8.encode before ++ (Utf8.spread number later ++ after)) =
            some (.error (.encoding ⟨before.byteLength, some 1⟩)) := by
  refine ⟨fun input => ?_, fun bytes hbytes => ?_, ?_⟩
  · rw [parseBytes, Utf8.decode_encode]
  · cases h : Utf8.decode bytes with
    | error fault =>
      exact ⟨fault, parseBytes_of_decode_error h g name, Utf8.locates_of_decode_error h⟩
    | ok input => exact absurd (Utf8.decode_eq_ok_iff.1 h) (hbytes input)
  · intro number later hlater hroom hother before after
    exact parseBytes_of_decode_error (Utf8.decode_spread hlater hroom hother before after) g name

/-- A letter and then two of the four bytes of a character before another letter; a surrogate in
three bytes, a slash in two and the number after that of the last character in four: the
hypotheses of `parseBytes_reads_utf8` are satisfiable. -/
theorem parseBytes_reads_utf8_faults :
    let _ : Tag Unit := ⟨fun _ => ['A']⟩
    let g : Grammar Unit := empty
    (∀ input, Utf8.encode input ≠ [0x61, 0xF0, 0x9F, 0x62]) ∧
      g.parseBytes ['?'] [0x61, 0xF0, 0x9F, 0x62] = some (.error (.encoding ⟨1, some 2⟩)) ∧
      (⟨1, some 2⟩ : Utf8.Invalid).Locates [0x61, 0xF0, 0x9F, 0x62] ∧
      g.parseBytes [] [0x61, 0xED, 0xA0, 0x80, 0x62] = some (.error (.encoding ⟨1, some 1⟩)) ∧
      g.parseBytes [] [0xC0, 0xAF] = some (.error (.encoding ⟨0, some 1⟩)) ∧
      g.parseBytes [] [0xF4, 0x90, 0x80, 0x80] = some (.error (.encoding ⟨0, some 1⟩)) := by
  intro _ g
  have hfirst : Utf8.step 0x61 [0xF0, 0x9F, 0x62] = .char 'a' [0xF0, 0x9F, 0x62] := rfl
  have hsecond : Utf8.step 0xF0 [0x9F, 0x62] = .malformed 2 := rfl
  have hdecode : Utf8.decode [0x61, 0xF0, 0x9F, 0x62] = .error ⟨1, some 2⟩ := by
    rw [Utf8.decode, Utf8.decodeFrom_of_char hfirst, Utf8.decodeFrom_of_malformed hsecond]
    rfl
  have hno : ∀ input, Utf8.encode input ≠ [0x61, 0xF0, 0x9F, 0x62] := by
    intro input hinput
    rw [← hinput, Utf8.decode_encode] at hdecode
    cases hdecode
  obtain ⟨fault, hanswer, hlocates⟩ := (parseBytes_reads_utf8 g ['?']).2.1 _ hno
  have hread := parseBytes_of_decode_error hdecode g ['?']
  obtain rfl : fault = ⟨1, some 2⟩ := by
    rw [hread] at hanswer
    exact (Error.encoding.inj (Except.error.inj (Option.some.inj hanswer))).symm
  have hspread := (parseBytes_reads_utf8 g []).2.2
  refine ⟨hno, hanswer, hlocates, ?_, ?_, ?_⟩
  · refine hspread 0xD800 2 (by decide) (by decide) (fun c hc _ => ?_) ['a'] [0x62]
    have hvalid : c.toNat.isValidChar := c.valid
    omega
  · refine hspread 0x2F 1 (by decide) (by decide) (fun c hc => ?_) [] []
    rw [← Char.ofNat_toNat c, hc]
    decide
  · refine hspread 0x110000 3 (by decide) (by decide) (fun c hc _ => ?_) [] []
    have hvalid : c.toNat.isValidChar := c.valid
    omega

end Grammar
end Descent
