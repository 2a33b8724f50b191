/-
# Matching on bytes

A pattern is matched on characters (`Pattern.matchAt`), while an input is stored as the bytes of its
UTF-8 form.  On these it is matched without reading them as a text first (`Pattern.matchBytes`):

| asked for | on bytes |
| --- | --- |
| a text | as many bytes as it has are cut off, and are the same |
| a text in any case | as many bytes are cut off, and are the same once ASCII letters are small |
| a character | one is decoded at the head |
| characters with given numbers | they are decoded one by one, and given back if one is missing |

Nothing is cut off where a character would be cut in two, and a single byte tells: within a
character every byte but the first is a continuation, and no first byte is one (`form_eq_cons`).  So
the cuts of a form are those of its text (`split?_encode_eq_some_iff`), and to compare the bytes is
to compare the characters.  A byte of a character that is not ASCII is above those of all letters
and stays as it is when they are made small (`map_lower_encode`).

Both ways of matching answer the same at every place of an input and leave the same place: past
what the pattern describes, or where the attempt was made (`matches_on_bytes_what_it_means`).
-/

import Descent.Proofs.Decoding
import Descent.Proofs.Denotation

namespace Descent

namespace Text
namespace Utf8

/-- The byte goes on with a character: its topmost bits are `10`. -/
def isContinuation (b : UInt8) : Bool := 0x80 ≤ b && b ≤ 0xBF

/-- A cut is possible before the bytes: they end there, or the first one begins a character. -/
def canStart : List UInt8 → Bool
  | [] => true
  | b :: _ => !isContinuation b

/-- The first `n` bytes and the others; none when there are fewer, or no cut is possible there. -/
def split? (n : Nat) (bytes : List UInt8) : Option (List UInt8 × List UInt8) :=
  if n ≤ bytes.length ∧ canStart (bytes.drop n) = true then
    some (bytes.take n, bytes.drop n)
  else none

/-! ## Where forms are cut -/

theorem encode_append (a b : Text) : encode (a ++ b) = encode a ++ encode b := List.flatMap_append

theorem encode_inj {a b : Text} : encode a = encode b ↔ a = b := by
  constructor
  · intro h
    have hread := decode_encode a
    rw [h, decode_encode] at hread
    exact (Except.ok.inj hread).symm
  · exact congrArg encode

theorem mem_sixes {number later : Nat} {b : UInt8} (h : b ∈ sixes number later) :
    0x80 ≤ b.toNat ∧ b.toNat ≤ 0xBF := by
  induction later with
  | zero => cases h
  | succ later ih =>
    rcases List.mem_cons.1 h with rfl | h
    · rw [toNat_six]
      omega
    · exact ih h

/-- **The bytes of a character:** its number alone if it is an ASCII character, and else a first
byte and continuations, all of them above the ASCII characters. -/
theorem form_cases (c : Char) :
    (c.toNat < 0x80 ∧ String.utf8EncodeChar c = [UInt8.ofNat c.toNat]) ∨
      (0x80 ≤ c.toNat ∧ ∃ b more, String.utf8EncodeChar c = b :: more ∧ 0xC2 ≤ b.toNat ∧
        ∀ x ∈ more, 0x80 ≤ x.toNat ∧ x.toNat ≤ 0xBF) := by
  obtain ⟨size, hsize⟩ : ∃ size, c.utf8Size = size + 1 :=
    ⟨c.utf8Size - 1, by have := c.utf8Size_pos; omega⟩
  have hform := utf8EncodeChar_eq_spread hsize
  cases size with
  | zero =>
    have hsmall : c.toNat ≤ 0x7F := by
      simpa using UInt32.le_iff_toNat_le.1 (Char.utf8Size_eq_one_iff.1 hsize)
    exact .inl ⟨by omega, hform⟩
  | succ later =>
    have hlarge : 0x80 ≤ c.toNat := by
      have hcases := (utf8Size_eq_iff c later).1 hsize
      omega
    obtain ⟨hlater, hbits, hmark, -⟩ := mark_of_opens (opens_iff.2 ⟨c, rfl, hsize⟩)
    refine .inr ⟨hlarge, _, _, hform, ?_, fun x hx => mem_sixes hx⟩
    rw [toNat_mark (by omega) hbits]
    exact hmark

theorem isContinuation_iff {b : UInt8} :
    isContinuation b = true ↔ 0x80 ≤ b.toNat ∧ b.toNat ≤ 0xBF := by
  simp [isContinuation, UInt8.le_iff_toNat_le]

/-- **The first byte of a character is no continuation,** and all others are. -/
theorem form_eq_cons (c : Char) : ∃ b more, String.utf8EncodeChar c = b :: more ∧
    isContinuation b = false ∧ ∀ x ∈ more, isContinuation x = true := by
  simp only [← Bool.not_eq_true, isContinuation_iff]
  rcases form_cases c with ⟨hsmall, hform⟩ | ⟨-, b, more, hform, hmark, hmore⟩
  · have hbyte : (UInt8.ofNat c.toNat).toNat = c.toNat :=
      UInt8.toNat_ofNat_of_lt' (by simp only [UInt8.size]; omega)
    exact ⟨_, _, hform, by omega, nofun⟩
  · exact ⟨b, more, hform, by omega, hmore⟩

/-- Before a character, or the end, a cut is possible. -/
theorem canStart_encode (t : Text) : canStart (encode t) = true := by
  cases t with
  | nil => rfl
  | cons c t =>
    obtain ⟨b, more, hform, hb, -⟩ := form_eq_cons c
    rw [encode_cons, hform, List.cons_append, canStart, hb]
    rfl

/-- Inside a character no cut is possible. -/
theorem canStart_drop_form {c : Char} {n : Nat} (hpos : 0 < n) (hlt : n < c.utf8Size)
    (bytes : List UInt8) : canStart ((String.utf8EncodeChar c ++ bytes).drop n) = false := by
  have hlength := String.length_utf8EncodeChar c
  obtain ⟨n, rfl⟩ := Nat.exists_eq_add_of_lt hpos
  obtain ⟨b, more, hform, -, hmore⟩ := form_eq_cons c
  rw [hform, List.length_cons] at hlength
  have hinside : 0 + n < more.length := by omega
  rw [hform, List.cons_append, List.drop_succ_cons, List.drop_append_of_le_length (by omega),
    List.drop_eq_getElem_cons hinside, List.cons_append, canStart,
    hmore _ (List.getElem_mem hinside)]
  rfl

/-- **Forms of texts are cut between characters,** as a cut of the text. -/
theorem exists_append_of_canStart {t : Text} {n : Nat} (hle : n ≤ (encode t).length)
    (h : canStart ((encode t).drop n) = true) : ∃ a b, t = a ++ b ∧ a.byteLength = n := by
  induction t generalizing n with
  | nil =>
    obtain rfl : n = 0 := Nat.le_zero.1 hle
    exact ⟨[], [], rfl, rfl⟩
  | cons c t ih =>
    rcases Nat.eq_zero_or_pos n with rfl | hpos
    · exact ⟨[], c :: t, rfl, rfl⟩
    · rw [encode_cons] at h
      by_cases hlt : n < c.utf8Size
      · rw [canStart_drop_form hpos hlt] at h
        cases h
      · obtain ⟨m, rfl⟩ := Nat.exists_eq_add_of_le (Nat.le_of_not_lt hlt)
        have hform := String.length_utf8EncodeChar c
        rw [← hform, List.drop_length_add_append] at h
        rw [encode_cons, List.length_append, hform] at hle
        obtain ⟨a, b, rfl, hlength⟩ := ih (by omega) h
        exact ⟨c :: a, b, rfl, by rw [byteLength_cons, hlength]⟩

/-- **Forms of texts are split where the texts are.** -/
theorem split?_encode_eq_some_iff {t : Text} {n : Nat} {found rest : List UInt8} :
    split? n (encode t) = some (found, rest) ↔
      ∃ a b, t = a ++ b ∧ a.byteLength = n ∧ found = encode a ∧ rest = encode b := by
  unfold split?
  constructor
  · intro h
    split at h
    · rename_i hcut
      obtain ⟨a, b, rfl, rfl⟩ := exists_append_of_canStart hcut.1 hcut.2
      rw [encode_append, ← length_encode, List.take_left, List.drop_left] at h
      obtain ⟨rfl, rfl⟩ := Prod.mk.inj (Option.some.inj h)
      exact ⟨a, b, rfl, rfl, rfl, rfl⟩
    · cases h
  · rintro ⟨a, b, rfl, rfl, rfl, rfl⟩
    rw [encode_append, ← length_encode, List.take_left, List.drop_left, if_pos]
    exact ⟨by simp, canStart_encode b⟩

/-! ## Letters made small -/

theorem toNat_lower (b : UInt8) :
    (lower b).toNat = if 65 ≤ b.toNat ∧ b.toNat ≤ 90 then b.toNat + 32 else b.toNat := by
  have hb := b.toNat_lt
  simp only [lower, UInt8.le_iff_toNat_le, UInt8.toNat_ofNat]
  split_ifs
  · have hthirtyTwo : (0x20 : UInt8).toNat = 32 := rfl
    rw [UInt8.toNat_add, hthirtyTwo]
    omega
  · rfl

/-- **ASCII letters are made small byte by byte,** as they are character by character. -/
theorem map_lower_form (c : Char) :
    (String.utf8EncodeChar c).map lower = String.utf8EncodeChar c.toLower := by
  rcases form_cases c with ⟨hsmall, hform⟩ | ⟨hlarge, b, more, hform, hmark, hmore⟩
  · have hlower := Numeral.toNat_toLower c
    rcases form_cases c.toLower with ⟨hsmall', hform'⟩ | ⟨hlarge', -⟩
    · rw [hform, hform', List.map_singleton, List.singleton_inj, ← UInt8.toNat_inj, toNat_lower,
        UInt8.toNat_ofNat_of_lt' (by simp only [UInt8.size]; omega),
        UInt8.toNat_ofNat_of_lt' (by simp only [UInt8.size]; omega), hlower]
    · split_ifs at hlower <;> omega
  · have hsame : c.toLower = c := by
      rw [← Char.toNat_inj, Numeral.toNat_toLower, if_neg (by omega)]
    have hbytes : ∀ x ∈ b :: more, lower x = id x := by
      intro x hx
      have hx : 0x80 ≤ x.toNat := by
        rcases List.mem_cons.1 hx with rfl | hx
        · omega
        · exact (hmore x hx).1
      rw [← UInt8.toNat_inj, toNat_lower, if_neg (by omega), id]
    rw [hsame, hform, List.map_congr_left hbytes, List.map_id]

theorem map_lower_encode (t : Text) : (encode t).map lower = encode (t.map Char.toLower) := by
  induction t with
  | nil => rfl
  | cons c t ih =>
    rw [encode_cons, List.map_append, map_lower_form, ih, List.map_cons, encode_cons]

/-! ## Past a text or a character -/

/-- Past the bytes of a text, if those that stand there agree with them. -/
def pastText (agree : List UInt8 → List UInt8 → Bool) (t : Text) (bytes : List UInt8) :
    Bool × List UInt8 :=
  match split? (encode t).length bytes with
  | some (found, rest) => if agree found (encode t) then (true, rest) else (false, bytes)
  | none => (false, bytes)

/-- Past the character that the bytes begin with, if it satisfies a predicate. -/
def pastCharacter (p : Char → Bool) (bytes : List UInt8) : Bool × List UInt8 :=
  match bytes with
  | [] => (false, bytes)
  | b :: more =>
    match step b more with
    | .char c rest => if p c then (true, rest) else (false, bytes)
    | .truncated => (false, bytes)
    | .malformed _ => (false, bytes)

theorem pastText_encode {agree : List UInt8 → List UInt8 → Bool} {agree' : Text → Text → Bool}
    {t : Text} (hagree : ∀ found, agree (encode found) (encode t) = agree' found t) (c : Cursor) :
    pastText agree t (encode c.rest) =
      (c.pastText agree' t).map id fun next => encode next.rest := by
  unfold pastText Cursor.pastText
  rw [length_encode]
  cases hfound : c.rest.take? t.byteLength with
  | some found =>
    obtain ⟨rest, hrest, hlength⟩ := take?_eq_some_iff.1 hfound
    have hsplit : split? t.byteLength (encode c.rest) = some (encode found, encode rest) :=
      split?_encode_eq_some_iff.2 ⟨found, rest, hrest, hlength, rfl, rfl⟩
    have hdrop : c.rest.drop? t.byteLength = some rest :=
      drop?_eq_some_iff.2 ⟨found, hrest, hlength⟩
    rw [hsplit, Cursor.advance?, hdrop]
    simp only [hagree, Option.map_some]
    split <;> rfl
  | none =>
    have hsplit : split? t.byteLength (encode c.rest) = none := by
      refine Option.eq_none_iff_forall_ne_some.2 fun ⟨found, rest⟩ h => ?_
      obtain ⟨a, b, hrest, hlength, -⟩ := split?_encode_eq_some_iff.1 h
      rw [take?_eq_some_iff.2 ⟨b, hrest, hlength⟩] at hfound
      cases hfound
    rw [hsplit]
    rfl

theorem pastCharacter_encode (p : Char → Bool) (c : Cursor) :
    pastCharacter p (encode c.rest) =
      (c.character p).map id fun next => encode next.rest := by
  unfold Cursor.character
  cases hrest : c.rest with
  | nil => simp [pastCharacter, encode, hrest]
  | cons x rest =>
    obtain ⟨b, more, hform⟩ := List.exists_cons_of_ne_nil (String.utf8EncodeChar_ne_nil (c := x))
    have hstep : step b (more ++ encode rest) = .char x (encode rest) :=
      step_form (by rw [hform, List.cons_append])
    rw [encode_cons, hform, List.cons_append, pastCharacter, hstep]
    dsimp only
    split
    · rfl
    · rw [Prod.map_apply, hrest, encode_cons, hform, List.cons_append]
      rfl

end Utf8
end Text

theorem Cursor.Sound.drop_encode {c : Cursor} (hc : c.Sound) :
    (Text.Utf8.encode c.input).drop c.offset = Text.Utf8.encode c.rest := by
  obtain ⟨before, hinput, hlength⟩ := Text.drop?_eq_some_iff.1 hc
  rw [hinput, Text.Utf8.encode_append, ← hlength, ← Text.Utf8.length_encode, List.drop_left]

/-- A sound cursor is the place in its input after so many bytes. -/
theorem Cursor.Sound.startingAt_eq {c : Cursor} (hc : c.Sound) :
    Cursor.startingAt c.input c.offset = .ok c := by
  have hrest : c.input.drop? c.offset = some c.rest := hc
  rw [Cursor.startingAt, hrest]

/-! ## Patterns -/

namespace Pattern

open Text.Utf8 (encode lower pastText pastCharacter)

/-- One character for each number, in order.  When one is missing, the bytes at `start` are given
back. -/
def numbersBytes (start : List UInt8) : List UInt8 → List UInt32 → Bool × List UInt8
  | bytes, [] => (true, bytes)
  | bytes, n :: numbers =>
    match pastCharacter (·.val == n) bytes with
    | (true, rest) => numbersBytes start rest numbers
    | (false, _) => (false, start)

/-- What a terminal describes, on bytes. -/
def terminalBytes (bytes : List UInt8) : Notation.Terminal → Bool × List UInt8
  | .range _ lo hi => pastCharacter (fun x => lo ≤ x.val && x.val ≤ hi) bytes
  | .values _ numbers => numbersBytes bytes bytes numbers
  | .quoted text true => pastText (· == ·) text bytes
  | .quoted text false => pastText (fun a b => a.map lower == b.map lower) text bytes

/-- Tries the pattern on bytes: whether it stands at their head, and the bytes that are left. -/
def matchBytes (p : Pattern) (bytes : List UInt8) : Bool × List UInt8 :=
  match p with
  | literal t => pastText (· == ·) t bytes
  | literalNoCase t => pastText (fun a b => a.map lower == b.map lower) t bytes
  | character x => pastCharacter (· == x) bytes
  | between lo hi => pastCharacter (fun x => lo ≤ x && x ≤ hi) bytes
  | satisfying q => pastCharacter q bytes
  | terminal t => terminalBytes bytes t

/-- Bytes are the same just when their characters are. -/
theorem pastText_encode (t : Text) (c : Cursor) :
    pastText (· == ·) t (encode c.rest) = (c.literal t).map id fun next => encode next.rest := by
  refine Text.Utf8.pastText_encode (fun found => ?_) c
  rw [Bool.eq_iff_iff, beq_iff_eq, beq_iff_eq, Text.Utf8.encode_inj]

theorem pastText_lower_encode (t : Text) (c : Cursor) :
    pastText (fun a b => a.map lower == b.map lower) t (encode c.rest) =
      (c.literalNoCase t).map id fun next => encode next.rest := by
  refine Text.Utf8.pastText_encode (fun found => ?_) c
  rw [Bool.eq_iff_iff, beq_iff_eq, Cursor.equalIgnoringCase_iff, Text.Utf8.map_lower_encode,
    Text.Utf8.map_lower_encode, Text.Utf8.encode_inj]

theorem numbersBytes_encode (start : Cursor) (numbers : List UInt32) (c : Cursor) :
    numbersBytes (encode start.rest) (encode c.rest) numbers =
      (numbersAt start c numbers).map id fun next => encode next.rest := by
  induction numbers generalizing c with
  | nil => rfl
  | cons n numbers ih =>
    have hnext := Text.Utf8.pastCharacter_encode (·.val == n) c
    rw [numbersBytes, numbersAt, hnext]
    rcases c.character (·.val == n) with ⟨_ | _, next⟩
    · rfl
    · exact ih next

/-- **On bytes a pattern matches as it does on characters,** and leaves the bytes of what the
cursor that is left has still to come. -/
theorem matchBytes_encode (p : Pattern) (c : Cursor) :
    p.matchBytes (encode c.rest) = (p.matchAt c).map id fun next => encode next.rest := by
  cases p with
  | literal t => exact pastText_encode t c
  | literalNoCase t => exact pastText_lower_encode t c
  | character x => exact Text.Utf8.pastCharacter_encode _ c
  | between lo hi => exact Text.Utf8.pastCharacter_encode _ c
  | satisfying q => exact Text.Utf8.pastCharacter_encode q c
  | terminal t =>
    cases t with
    | range base lo hi => exact Text.Utf8.pastCharacter_encode _ c
    | values base numbers => exact numbersBytes_encode c numbers c
    | quoted text caseSensitive =>
      cases caseSensitive with
      | true => exact pastText_encode text c
      | false => exact pastText_lower_encode text c

/-! ## What a match means -/

/-- The characters are the same, or ASCII letters that differ in their case alone. -/
def SameButCase (x y : Char) : Prop :=
  x = y ∨ (x.toNat < 0x80 ∧ y.toNat < 0x80 ∧ x.toLower = y.toLower)

theorem toLower_eq_iff {x y : Char} : x.toLower = y.toLower ↔ SameButCase x y := by
  constructor
  · intro h
    by_cases hsame : x = y
    · exact .inl hsame
    · have hlower := congrArg Char.toNat h
      rw [← Char.toNat_inj] at hsame
      rw [Text.Numeral.toNat_toLower, Text.Numeral.toNat_toLower] at hlower
      split_ifs at hlower <;> exact .inr ⟨by omega, by omega, h⟩
  · rintro (rfl | ⟨-, -, h⟩)
    · rfl
    · exact h

theorem describes_literalNoCase_iff {t taken : Text} :
    (literalNoCase t).Describes taken ↔ List.Forall₂ SameButCase taken t := by
  rw [Describes, ← List.forall₂_eq_eq_eq, List.forall₂_map_left_iff, List.forall₂_map_right_iff]
  simp only [toLower_eq_iff]

/-- A sequence describes the characters with its numbers, one for each. -/
theorem describes_values_iff {base : Notation.Base} {numbers : List UInt32} {taken : Text} :
    (terminal (.values base numbers)).Describes taken ↔
      List.Forall₂ (fun x n => x.val = n) taken numbers := by
  rw [Describes, Notation.Terminal.Describes, ← List.forall₂_eq_eq_eq, List.forall₂_map_left_iff]

theorem matchAt_range {base : Notation.Base} {lo hi : UInt32}
    (hnone : hi < lo ∨ (0xD800 ≤ lo ∧ hi ≤ 0xDFFF)) (c : Cursor) :
    (terminal (.range base lo hi)).matchAt c = (false, c) := by
  refine matchAt_eq_false_iff.2 ⟨rfl, fun taken _ _ hp => ?_⟩
  obtain ⟨x, -, hlo, hhi⟩ := hp
  have hvalid : x.val.toNat.isValidChar := x.valid
  simp only [UInt32.le_iff_toNat_le, UInt32.lt_iff_toNat_lt, UInt32.toNat_ofNat] at hnone hlo hhi
  omega

theorem matchAt_between {lo hi : Char} (hnone : hi < lo) (c : Cursor) :
    (between lo hi).matchAt c = (false, c) := by
  refine matchAt_eq_false_iff.2 ⟨rfl, fun taken _ _ hp => ?_⟩
  obtain ⟨x, -, hlo, hhi⟩ := hp
  exact Char.not_le.2 hnone (Char.le_trans hlo hhi)

/-- **A pattern takes on bytes what it means on characters.**  At any place of an input where a
character starts, or the input ends, an attempt on the bytes comes to the same as `matchAt`: it
gives the same answer and leaves the bytes of the same place.  `matchAt` takes a text that the
pattern describes, if one stands at the head of what follows, by as many bytes as the text has, to a
place of the same kind.  It leaves the cursor where it was if none stands there, also when a
sequence breaks off behind some of its characters.

A text is described in any case when its characters pair off with those asked for, each the same or
an ASCII letter in the other case; a sequence, when its numbers are those of the characters, one by
one; no character lies in a range that runs backwards or holds surrogates alone.  A rule body that
asks for the pattern goes on from the cursor that is left. -/
theorem matches_on_bytes_what_it_means {R : Type} {input : Text} {offset : Nat} {c : Cursor}
    (h : Cursor.startingAt input offset = .ok c) (p : Pattern) :
    (p.matchBytes ((encode input).drop offset) =
        (p.matchAt c).map id fun next => (encode input).drop next.offset) ∧
      (∀ next, p.matchAt c = (true, next) ↔
        ∃ taken, p.Describes taken ∧ c.rest = taken ++ next.rest ∧ next.input = input ∧
          next.offset = offset + (encode taken).length) ∧
      (∀ next, p.matchAt c = (true, next) → Cursor.startingAt input next.offset = .ok next) ∧
      (∀ next, p.matchAt c = (false, next) ↔
        next = c ∧ ∀ taken rest, c.rest = taken ++ rest → ¬p.Describes taken) ∧
      (∀ t taken, ((literalNoCase t).Describes taken ↔ List.Forall₂ SameButCase taken t) ∧
        ((terminal (.quoted t false)).Describes taken ↔ List.Forall₂ SameButCase taken t)) ∧
      (∀ base numbers taken, (terminal (.values base numbers)).Describes taken ↔
        List.Forall₂ (fun x n => x.val = n) taken numbers) ∧
      (∀ base lo hi, hi < lo ∨ (0xD800 ≤ lo ∧ hi ≤ 0xDFFF) →
        (terminal (.range base lo hi)).matchAt c = (false, c)) ∧
      (∀ lo hi, hi < lo → (between lo hi).matchAt c = (false, c)) ∧
      ∀ s : State R, s.cursor = c →
        (∀ next, p.matchAt c = (true, next) → s.isAborted = false →
            Body.pattern p s = some (.matched { s with cursor := next })) ∧
          ∀ next, p.matchAt c = (false, next) →
            ∃ t, Body.pattern p s = some (.failed t) ∧ t.cursor = c := by
  obtain ⟨hsound, rfl, rfl⟩ := Cursor.sound_of_startingAt h
  have hpast (next : Cursor) (hnext : p.matchAt c = (true, next)) :
      Cursor.startingAt c.input next.offset = .ok next := by
    obtain ⟨taken, -, htakes⟩ := matchAt_eq_true_iff.1 hnext
    rw [← htakes.input]
    exact (htakes.sound hsound).startingAt_eq
  refine ⟨?_, fun next => ?_, hpast, fun next => matchAt_eq_false_iff,
    fun t taken => ⟨describes_literalNoCase_iff, describes_literalNoCase_iff⟩,
    fun base numbers taken => describes_values_iff, fun base lo hi hnone => matchAt_range hnone c,
    fun lo hi hnone => matchAt_between hnone c, fun s hs => ⟨fun next hnext hfree => ?_, ?_⟩⟩
  · rw [hsound.drop_encode, matchBytes_encode]
    rcases hnext : p.matchAt c with ⟨_ | _, next⟩
    · rw [Prod.map_apply, Prod.map_apply, matchAt_eq_false hnext, hsound.drop_encode]
    · obtain ⟨hsound', hinput, -⟩ := Cursor.sound_of_startingAt (hpast next hnext)
      rw [Prod.map_apply, Prod.map_apply, ← hinput, hsound'.drop_encode]
  · rw [matchAt_eq_true_iff]
    simp only [Text.Utf8.length_encode]
    exact exists_congr fun taken => and_congr_right fun _ =>
      ⟨fun ht => ⟨ht.rest, ht.input, ht.offset⟩, fun ⟨hrest, hinput, hoff⟩ => ⟨hinput, hrest, hoff⟩⟩
  · rw [← hs] at hnext
    rw [Body.pattern, hfree, hnext]
    rfl
  · rw [← hs]
    exact fun next => Body.pattern_of_matchAt_eq_false

/-- After the first letter of `xa€`, a text in other case that ends where the input does, and one
that would end inside the last character; a sequence that breaks off behind the `a`; a range that
runs backwards, and the surrogates: the hypotheses of `matches_on_bytes_what_it_means` are
satisfiable, and a mismatch may come after a character was passed. -/
theorem matches_on_bytes_what_it_means_inside :
    let input : Text := "xa€".toList
    let c : Cursor := ⟨input, 1, "a€".toList⟩
    let last : Cursor := ⟨input, 5, []⟩
    let s : State Unit := .ofCursor c .standard
    let sequence : Pattern := terminal (.values .hex [0x61, 0x62])
    Cursor.startingAt input 1 = .ok c ∧
      (literalNoCase "A€".toList).matchAt c = (true, last) ∧
      (literalNoCase "A€".toList).matchBytes ((encode input).drop 1) = (true, []) ∧
      Cursor.startingAt input 5 = .ok last ∧
      s.cursor = c ∧ s.isAborted = false ∧
      Body.pattern (literalNoCase "A€".toList) s = some (.matched { s with cursor := last }) ∧
      (literal "ab".toList).matchAt c = (false, c) ∧
      (literal "ab".toList).matchBytes ((encode input).drop 1) = (false, (encode input).drop 1) ∧
      (∃ t, Body.pattern (literal "ab".toList) s = some (.failed t) ∧ t.cursor = c) ∧
      c.character (·.val == 0x61) = (true, ⟨input, 2, "€".toList⟩) ∧
      sequence.matchAt c = (false, c) ∧
      sequence.matchBytes ((encode input).drop 1) = (false, (encode input).drop 1) ∧
      (∃ t, Body.pattern sequence s = some (.failed t) ∧ t.cursor = c) ∧
      (terminal (.range .hex 0x62 0x61)).matchAt c = (false, c) ∧
      (terminal (.range .hex 0xD800 0xDFFF)).matchAt c = (false, c) ∧
      'b' > 'a' ∧ (between 'b' 'a').matchAt c = (false, c) := by
  intro input c last s sequence
  have hstart : Cursor.startingAt input 1 = .ok c := rfl
  have hmatch : (literalNoCase "A€".toList).matchAt c = (true, last) := rfl
  have hlast : (encode input).drop 5 = [] := rfl
  obtain ⟨hbytes, -, hpast, -, -, -, hrange, hbetween, hstate⟩ :=
    matches_on_bytes_what_it_means (R := Unit) hstart (literalNoCase "A€".toList)
  obtain ⟨hbytes', -, -, -, -, -, -, -, hstate'⟩ :=
    matches_on_bytes_what_it_means (R := Unit) hstart (literal "ab".toList)
  obtain ⟨hbytes'', -, -, -, -, -, -, -, hstate''⟩ :=
    matches_on_bytes_what_it_means (R := Unit) hstart sequence
  have hnone : (literal "ab".toList).matchAt c = (false, c) := rfl
  have hbroken : sequence.matchAt c = (false, c) := rfl
  rw [hmatch, Prod.map_apply, hlast] at hbytes
  rw [hnone, Prod.map_apply] at hbytes'
  rw [hbroken, Prod.map_apply] at hbytes''
  exact ⟨hstart, hmatch, hbytes, hpast last hmatch, rfl, rfl, (hstate s rfl).1 last hmatch rfl,
    hnone, hbytes', (hstate' s rfl).2 c hnone, rfl, hbroken, hbytes'', (hstate'' s rfl).2 c hbroken,
    hrange .hex 0x62 0x61 (.inl (by decide)), hrange .hex 0xD800 0xDFFF (.inr (by decide)),
    by decide, hbetween 'b' 'a' (by decide)⟩

end Pattern
end Descent
