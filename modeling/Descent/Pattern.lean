/-
# Patterns

What a rule asks for at the cursor without naming another rule.  A pattern takes
the text that it describes, or nothing and leaves the cursor where it was:

| pattern | takes |
| --- | --- |
| `literal t` | `t` |
| `literalNoCase t` | `t` in any case of its ASCII letters |
| `character c` | `c` |
| `between lo hi` | one character from `lo` to `hi` |
| `satisfying p` | one character for which `p` holds |
| `terminal t` | what the terminal `t` of a notation describes |
-/

import Descent.Cursor
import Descent.Notation.Terminal

namespace Descent

/-- A description of texts that is matched at a cursor. -/
inductive Pattern where
  | literal (t : Text)
  | literalNoCase (t : Text)
  | character (c : Char)
  | between (lo hi : Char)
  | satisfying (p : Char → Bool)
  | terminal (t : Notation.Terminal)

namespace Pattern

/-- One character for each number, in order.  When one is missing, what was taken since `start` is
given back. -/
def numbersAt (start : Cursor) : Cursor → List UInt32 → Bool × Cursor
  | c, [] => (true, c)
  | c, n :: numbers =>
    match c.character (·.val == n) with
    | (true, next) => numbersAt start next numbers
    | (false, next) => (false, next.restore start)

/-- What a terminal describes. -/
def terminalAt (c : Cursor) : Notation.Terminal → Bool × Cursor
  | .range _ lo hi => c.character fun x => lo ≤ x.val && x.val ≤ hi
  | .values _ numbers => numbersAt c c numbers
  | .quoted text true => c.literal text
  | .quoted text false => c.literalNoCase text

/-- Tries the pattern at a cursor: whether it stands there, and the cursor that is left. -/
def matchAt (p : Pattern) (c : Cursor) : Bool × Cursor :=
  match p with
  | literal t => c.literal t
  | literalNoCase t => c.literalNoCase t
  | character x => c.character (· == x)
  | between lo hi => c.character fun x => lo ≤ x && x ≤ hi
  | satisfying q => c.character q
  | terminal t => terminalAt c t

/-- Past what the pattern describes; none when it does not stand at the cursor. -/
def match? (p : Pattern) (c : Cursor) : Option Cursor :=
  match p.matchAt c with
  | (true, next) => some next
  | (false, _) => none

end Pattern
end Descent
