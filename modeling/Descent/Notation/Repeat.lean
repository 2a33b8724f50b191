/-
# Numbers of occurrences

How often an element may occur: at least `min` times, and at most `max` times if
there is a greatest number.

| written | occurrences |
| --- | --- |
| `3` | three |
| `*` | any number |
| `2*` | two or more |
| `*5` | up to five |
| `1*9` | one to nine |

The numbers have 64 bits.  One that is larger is not read at all, and so the
notation is refused where it stands.
-/

import Descent.Notation.Reader

namespace Descent
namespace Notation

/-- A least and a greatest number of occurrences. -/
structure Repeat where
  min : UInt64
  /-- The greatest number; none when there is no bound. -/
  max : Option UInt64
  deriving DecidableEq, Repr

namespace Repeat

/-- From one number to another. -/
def between (min max : UInt64) : Repeat := ⟨min, some max⟩

/-- One number. -/
def exactly (n : UInt64) : Repeat := between n n

/-- A number or more. -/
def atLeast (min : UInt64) : Repeat := ⟨min, none⟩

/-- Any number of occurrences. -/
def any : Repeat := atLeast 0

/-- One occurrence or none. -/
def optional : Repeat := between 0 1

/-- The least number is not above the greatest. -/
def validate (r : Repeat) : Except Error Unit :=
  match r.max with
  | some max => if max < r.min then .error (.repeatInverted r.min max) else .ok ()
  | none => .ok ()

/-- A number as it is written. -/
def digits (n : UInt64) : Text := Text.Numeral.write 10 n.toNat

/-- The notation of the bounds: the shortest of its forms. -/
def render (r : Repeat) : Text :=
  match r.max with
  | some max =>
    if r.min = max then digits max
    else if r.min = 0 then '*' :: digits max
    else digits r.min ++ '*' :: digits max
  | none => if r.min = 0 then ['*'] else digits r.min ++ ['*']

/-- A number of 64 bits. -/
def count? (t : Text) : Option (UInt64 × Text) :=
  match number? 10 t with
  | some (n, rest) => if n < UInt64.size then some (n.toUInt64, rest) else none
  | none => none

/-- A count, or a star with a number on either side. -/
def element : Reader Repeat := fun t =>
  match optionally count? t with
  | (min, '*' :: rest) =>
    let (max, rest) := optionally count? rest
    .ok (⟨min.getD 0, max⟩, rest)
  | (some n, rest) => .ok (exactly n, rest)
  | (none, _) => .error (.malformed .count t)

/-- Reads the notation of a number of occurrences. -/
def read (t : Text) : Except Error Repeat := do
  let bounds ← whole element t
  bounds.validate
  return bounds

/-- Blank characters around the bounds do not count. -/
example : read " 1*9 ".toList = .ok (between 1 9) := by cbv

/-- A greatest number of more than 64 bits is not read, and not taken for no bound. -/
example : read "*18446744073709551616".toList =
    .error (.malformed .finish "18446744073709551616".toList) := by cbv

end Repeat
end Notation
end Descent
