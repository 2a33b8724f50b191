/-
# UTF-8

A text is written as the bytes of its characters (`encode`), and read back from
bytes (`decode`).  A character is one to four bytes.  The first byte says how
many follow it and between which bounds the second one lies; every later byte
lies between 80 and BF:

| first byte | second byte | bytes after the second |
| --- | --- | ---: |
| 00 to 7F | none | 0 |
| C2 to DF | 80 to BF | 0 |
| E0 | A0 to BF | 1 |
| E1 to EC, EE, EF | 80 to BF | 1 |
| ED | 80 to 9F | 1 |
| F0 | 90 to BF | 2 |
| F1 to F3 | 80 to BF | 2 |
| F4 | 80 to 8F | 2 |

The bounds leave out overlong forms, surrogates and numbers above 10FFFF.  Bytes
that are no text are reported by the length of the text before the fault and the
length of the fault: the bytes that could still have begun a character, at least
one, and no length when the bytes end inside a character.
-/

import Descent.Text.Slice

namespace Descent
namespace Text
namespace Utf8

/-- The UTF-8 form of a text. -/
def encode (t : Text) : List UInt8 := t.flatMap String.utf8EncodeChar

/-- The byte of the small letter, if it is that of a large ASCII letter. -/
def lower (b : UInt8) : UInt8 := if 0x41 ≤ b ∧ b ≤ 0x5A then b + 0x20 else b

/-- Where and how bytes stop being a text. -/
structure Invalid where
  /-- The number of bytes that form a text before the fault. -/
  validUpTo : Nat
  /-- The number of bytes of the fault; none when the bytes end inside a character. -/
  errorLength : Option Nat
  deriving DecidableEq, Repr

/-- The wording of the fault. -/
def Invalid.message (e : Invalid) : String :=
  match e.errorLength with
  | some n => s!"invalid utf-8 sequence of {n} bytes from index {e.validUpTo}"
  | none => s!"incomplete utf-8 byte sequence from index {e.validUpTo}"

/-- What the first byte of a longer character says. -/
structure Lead where
  /-- The topmost bits of the character's number. -/
  bits : Nat
  /-- The least second byte. -/
  least : UInt8
  /-- The greatest second byte. -/
  greatest : UInt8
  /-- The number of bytes after the second. -/
  later : Nat

/-- The table of first bytes above 7F. -/
def lead? (b : UInt8) : Option Lead :=
  if 0xC2 ≤ b ∧ b ≤ 0xDF then some ⟨b.toNat - 0xC0, 0x80, 0xBF, 0⟩
  else if b = 0xE0 then some ⟨0, 0xA0, 0xBF, 1⟩
  else if b = 0xED then some ⟨0xD, 0x80, 0x9F, 1⟩
  else if 0xE1 ≤ b ∧ b ≤ 0xEF then some ⟨b.toNat - 0xE0, 0x80, 0xBF, 1⟩
  else if b = 0xF0 then some ⟨0, 0x90, 0xBF, 2⟩
  else if 0xF1 ≤ b ∧ b ≤ 0xF3 then some ⟨b.toNat - 0xF0, 0x80, 0xBF, 2⟩
  else if b = 0xF4 then some ⟨4, 0x80, 0x8F, 2⟩
  else none

/-- What stands at the head of some bytes. -/
inductive Step where
  /-- A character, and the bytes after it. -/
  | char (c : Char) (rest : List UInt8)
  /-- The beginning of a character, and then the end. -/
  | truncated
  /-- Bytes that begin no character, or no longer do after this many. -/
  | malformed (length : Nat)

/-- Reads the last bytes of a character, of which `seen` bytes gave the number so far. -/
def finish (number seen : Nat) : Nat → List UInt8 → Step
  | 0, bytes => .char (Char.ofNat number) bytes
  | _ + 1, [] => .truncated
  | later + 1, b :: bytes =>
    if 0x80 ≤ b ∧ b ≤ 0xBF then
      finish (number * 64 + (b.toNat - 0x80)) (seen + 1) later bytes
    else .malformed seen

/-- Reads the character that starts with byte `b`. -/
def step (b : UInt8) (bytes : List UInt8) : Step :=
  if b < 0x80 then .char (Char.ofNat b.toNat) bytes
  else match lead? b, bytes with
    | none, _ => .malformed 1
    | some _, [] => .truncated
    | some lead, second :: bytes =>
      if lead.least ≤ second ∧ second ≤ lead.greatest then
        finish (lead.bits * 64 + (second.toNat - 0x80)) 2 lead.later bytes
      else .malformed 1

theorem length_le_of_finish {number seen later : Nat} {bytes rest : List UInt8} {c : Char}
    (h : finish number seen later bytes = .char c rest) : rest.length ≤ bytes.length := by
  induction later generalizing number seen bytes with
  | zero => simp_all [finish]
  | succ later ih =>
    cases bytes with
    | nil => simp [finish] at h
    | cons b bytes =>
      unfold finish at h
      split at h
      · have := ih h
        simp
        omega
      · simp at h

/-- A character takes at least its first byte. -/
theorem length_le_of_step {b : UInt8} {bytes rest : List UInt8} {c : Char}
    (h : step b bytes = .char c rest) : rest.length ≤ bytes.length := by
  unfold step at h
  split at h
  · simp_all
  · split at h
    · simp at h
    · simp at h
    · split at h
      · have := length_le_of_finish h
        simp
        omega
      · simp at h

/-- The text that bytes form, read from byte `start` of the whole. -/
def decodeFrom (start : Nat) : List UInt8 → Except Invalid Text
  | [] => .ok []
  | b :: bytes =>
    match _h : step b bytes with
    | .char c rest => (decodeFrom (start + c.utf8Size) rest).map (c :: ·)
    | .truncated => .error ⟨start, none⟩
    | .malformed n => .error ⟨start, some n⟩
termination_by bytes => bytes.length
decreasing_by
  have := length_le_of_step _h
  simp
  omega

/-- The text whose UTF-8 form some bytes are. -/
def decode (bytes : List UInt8) : Except Invalid Text := decodeFrom 0 bytes

/-- A surrogate is a fault of one byte, as no character starts with the first two. -/
example : decode [0x61, 0xED, 0xA0, 0x80] = .error ⟨1, some 1⟩ := by cbv

/-- Bytes that end inside a character have a fault of no length. -/
example : decode [0xC3, 0xA9, 0xE2, 0x82] = .error ⟨2, none⟩ := by cbv

end Utf8
end Text
end Descent
