/-
# Reading a notation

A reader takes an element from the head of a text and gives it with the text
after it.  `whole` reads a notation from its first to its last character, the
blank ones at both ends apart.
-/

import Descent.Notation.Error
import Descent.Text.Blank

namespace Descent
namespace Notation

/-- Takes an element from the head of a text, or says which one is missing and where. -/
abbrev Reader (α : Type) := Text → Except Error (α × Text)

/-- An element that may be absent, and then nothing is taken. -/
def optionally {α : Type} (read? : Text → Option (α × Text)) (t : Text) : Option α × Text :=
  match read? t with
  | some (a, rest) => (some a, rest)
  | none => (none, t)

/-- Reads a notation that is nothing but the element, between blank characters. -/
def whole {α : Type} (read : Reader α) (t : Text) : Except Error α :=
  match read t.trim with
  | .ok (a, []) => .ok a
  | .ok (_, rest) => .error (.malformed .finish rest)
  | .error e => .error e

/-- The number at the head of a text: its digits, if there are any. -/
def number? (radix : Nat) (t : Text) : Option (Nat × Text) :=
  let digits := t.takeWhile (Text.Numeral.isDigit radix)
  if digits = [] then none
  else some (Text.Numeral.value radix digits, t.dropWhile (Text.Numeral.isDigit radix))

/-- A number is at least one character long. -/
theorem length_lt_of_number? {radix n : Nat} {t rest : Text} (h : number? radix t = some (n, rest)) :
    rest.length < t.length := by
  simp only [number?] at h
  split at h
  · simp at h
  · rename_i hne
    obtain ⟨-, rfl⟩ := Prod.mk.inj (Option.some.inj h)
    have hlen := congrArg List.length
      (List.takeWhile_append_dropWhile (p := Text.Numeral.isDigit radix) (l := t))
    have hpos := List.length_pos_iff.2 hne
    simp only [List.length_append] at hlen
    omega

end Notation
end Descent
