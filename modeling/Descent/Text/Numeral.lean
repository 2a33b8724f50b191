/-
# Numerals

Natural numbers in a radix up to sixteen, written with the digits `0` to `9` and
the letters `a` to `f`.  A letter may be read in either case; it is written
small by `write` and large by `writeHex`.

`readWord` reads a decimal number of 64 bits.  It goes through the characters
from the left and stops at the first one that is no digit, or with which the
number leaves the range:

| text | answer |
| --- | --- |
| `42`, `+42`, `0042` | 42 |
| no character | `empty` |
| `+`, `-1`, `4 2` | `invalidDigit` |
| `18446744073709551616` | `overflow` |
-/

import Descent.Text.Slice

namespace Descent
namespace Text
namespace Numeral

/-- The place of a character in the row of digits and letters `0` to `9`, `a` to `z`;
the case of a letter does not matter. -/
def rank? (c : Char) : Option Nat :=
  if '0' ≤ c ∧ c ≤ '9' then some (c.toNat - '0'.toNat)
  else if 'a' ≤ c ∧ c ≤ 'z' then some (c.toNat - 'a'.toNat + 10)
  else if 'A' ≤ c ∧ c ≤ 'Z' then some (c.toNat - 'A'.toNat + 10)
  else none

/-- The value of a character as a digit of the radix. -/
def digit? (radix : Nat) (c : Char) : Option Nat := (rank? c).filter (· < radix)

/-- The character is a digit of the radix. -/
def isDigit (radix : Nat) (c : Char) : Bool := (digit? radix c).isSome

/-- The number that a text of digits stands for. -/
def value (radix : Nat) (digits : Text) : Nat :=
  digits.foldl (fun n c => n * radix + (digit? radix c).getD 0) 0

/-- The digits of a number, the letters small. -/
def write (radix n : Nat) : Text := Nat.toDigits radix n

/-- The hexadecimal digits of a number, the letters large, at least two of them. -/
def writeHex (n : Nat) : Text :=
  let digits := (Nat.toDigits 16 n).map Char.toUpper
  if digits.length < 2 then '0' :: digits else digits

/-- Why a text is not a number of 64 bits. -/
inductive WordError where
  | empty
  | invalidDigit
  | overflow
  deriving DecidableEq, Repr

namespace WordError

/-- The wording of the error. -/
def message : WordError → String
  | empty => "cannot parse integer from empty string"
  | invalidDigit => "invalid digit found in string"
  | overflow => "number too large to fit in target type"

end WordError

/-- One more decimal digit on the right of a number of 64 bits. -/
def appendDigit (n : UInt64) (c : Char) : Except WordError UInt64 :=
  match digit? 10 c with
  | none => .error .invalidDigit
  | some d =>
    let m := n.toNat * 10 + d
    if m < UInt64.size then .ok m.toUInt64 else .error .overflow

/-- Reads a decimal number of 64 bits; one plus sign may stand before the digits. -/
def readWord : Text → Except WordError UInt64
  | [] => .error .empty
  | '+' :: c :: digits => (c :: digits).foldlM appendDigit 0
  | digits => digits.foldlM appendDigit 0

/-- One plus sign may stand before the digits. -/
example : readWord "+7".toList = .ok 7 ∧ readWord "+".toList = .error .invalidDigit := ⟨rfl, rfl⟩

/-- The first number of 65 bits is out of range. -/
example : readWord "18446744073709551616".toList = .error .overflow := by rfl

end Numeral
end Text
end Descent
