/-
# Faults of a notation

A notation is refused where its first element fails, or, once it is read to its
end, because of the values it holds:

| fault | when |
| --- | --- |
| `malformed` | an element is missing; with what stands in its place |
| `repeatInverted` | a least number of occurrences above the greatest |
| `rangeInverted` | a range whose start is above its end |
| `notScalar` | a value that is the number of no character |
-/

import Descent.Text.Quoted

namespace Descent
namespace Notation

/-- The element that a notation lacks. -/
inductive Expected where
  /-- A fixed character or one of a few letters. -/
  | tag
  /-- At least one digit. -/
  | digits
  /-- A number of 32 bits. -/
  | number
  /-- A count of occurrences. -/
  | count
  /-- The letter that starts a name. -/
  | letter
  /-- The end. -/
  | finish
  deriving DecidableEq, Repr

namespace Expected

/-- The word for the element in a message. -/
def code : Expected → String
  | tag => "Tag"
  | digits => "TakeWhile1"
  | number => "MapRes"
  | count => "Digit"
  | letter => "Alpha"
  | finish => "Eof"

end Expected

/-- Why a notation is refused. -/
inductive Error where
  /-- The element is missing where the rest of the notation begins. -/
  | malformed (expected : Expected) (rest : Text)
  | repeatInverted (min max : UInt64)
  | rangeInverted (lo hi : UInt32)
  | notScalar (value : UInt32)
  deriving DecidableEq, Repr

namespace Error

/-- A value in hexadecimal, marked as such. -/
def hex (value : UInt32) : String := "0x" ++ String.ofList (Text.Numeral.write 16 value.toNat)

/-- The wording of the fault. -/
def message : Error → String
  | malformed expected rest =>
    "failed to parse: Error(Error \x7b input: " ++ String.ofList rest.quoted ++
      ", code: " ++ expected.code ++ " \x7d)"
  | repeatInverted min max => s!"repeat minimum {min} exceeds maximum {max}"
  | rangeInverted lo hi => s!"range start {hex lo} exceeds range end {hex hi}"
  | notScalar value => s!"{hex value} is not a unicode scalar value"

end Error
end Notation
end Descent
