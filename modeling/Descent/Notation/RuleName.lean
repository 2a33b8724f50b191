/-
# Rule names

A letter, followed by letters, digits and hyphens, all of them ASCII.  Names that
differ in the case of their letters alone are the same name; a name keeps the
spelling in which it was given.
-/

import Descent.Notation.Reader
import Descent.Text.Utf8

namespace Descent
namespace Notation

/-- A name of a rule. -/
structure RuleName where
  spelling : Text
  deriving Repr

namespace RuleName

/-- The spelling in small letters, which tells names apart. -/
def key (name : RuleName) : Text := name.spelling.map Char.toLower

instance : BEq RuleName := ⟨fun a b => a.key == b.key⟩

theorem beq_iff_key_eq {a b : RuleName} : (a == b) = true ↔ a.key = b.key := by
  change (a.key == b.key) = true ↔ _
  simp

instance : EquivBEq RuleName where
  rfl := beq_iff_key_eq.2 rfl
  symm h := beq_iff_key_eq.2 (beq_iff_key_eq.1 h).symm
  trans h₁ h₂ := beq_iff_key_eq.2 ((beq_iff_key_eq.1 h₁).trans (beq_iff_key_eq.1 h₂))

/-- The bytes from which a hash of the name is made: those of its spelling in small letters. -/
def hashed (name : RuleName) : List UInt8 :=
  (Text.Utf8.encode name.spelling).map Text.Utf8.lower

/-- The name as it is written: in its own spelling. -/
def render (name : RuleName) : Text := name.spelling

/-- A character that may follow the first one of a name. -/
def isInner (c : Char) : Bool := c.isAlphanum || c == '-'

/-- A name, as long as it can be. -/
def element : Reader RuleName
  | c :: t =>
    if c.isAlpha then .ok (⟨c :: t.takeWhile isInner⟩, t.dropWhile isInner)
    else .error (.malformed .letter (c :: t))
  | [] => .error (.malformed .letter [])

/-- Reads a name. -/
def read (t : Text) : Except Error RuleName := whole element t

/-- A name ends before the first character that cannot stand in it. -/
example : read "a b".toList = .error (.malformed .finish " b".toList) := by rfl

/-- The case of letters does not tell names apart. -/
example : (RuleName.mk "Session-Name".toList == RuleName.mk "session-name".toList) = true := by
  decide +kernel

end RuleName
end Notation
end Descent
