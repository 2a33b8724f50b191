/-
# Quoted texts

A text between double quotes, on one line and in visible characters:

| character | written |
| --- | --- |
| `"` and `\` | after a `\` |
| tab, carriage return, line feed, null | `\t`, `\r`, `\n`, `\0` |
| a character that is hidden | `\u`, then its number in hexadecimal between braces |
| any other | itself |

Which characters are hidden is a parameter; `quoted` hides the unprintable ones.
-/

import Descent.Text.Numeral
import Descent.Text.Unprintable

namespace Descent
namespace Text
namespace Quoted

/-- The number of a character, between braces. -/
def numbered (c : Char) : Text :=
  '\\' :: 'u' :: '\x7b' :: (Numeral.write 16 c.toNat ++ ['\x7d'])

/-- The written form of one character. -/
def escape (hidden : Char → Bool) (c : Char) : Text :=
  if c = '"' then ['\\', '"']
  else if c = '\\' then ['\\', '\\']
  else if c = '\t' then ['\\', 't']
  else if c = '\r' then ['\\', 'r']
  else if c = '\n' then ['\\', 'n']
  else if c = '\x00' then ['\\', '0']
  else if hidden c then numbered c
  else [c]

/-- A text between quotes. -/
def encode (hidden : Char → Bool) (t : Text) : Text :=
  '"' :: (t.flatMap (escape hidden) ++ ['"'])

end Quoted

/-- A text between quotes, its unprintable characters by number. -/
def quoted (t : Text) : Text := Quoted.encode isUnprintable t

/-- Quotes and line feeds have forms of their own, other control characters their number. -/
example : quoted ['a', '"', '\n', '\x01'] =
    ['"', 'a', '\\', '"', '\\', 'n', '\\', 'u', '\x7b', '1', '\x7d', '"'] := by decide +kernel

end Text
end Descent
