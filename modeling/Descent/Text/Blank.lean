/-
# Blank characters

The characters of the Unicode property White_Space, and `trim`, which takes them
off both ends of a text:

| characters | code points |
| --- | --- |
| tab, line feed, vertical tab, form feed, carriage return | 9 to D |
| space | 20 |
| next line | 85 |
| no-break space | A0 |
| ogham space mark | 1680 |
| en quad to hair space | 2000 to 200A |
| line and paragraph separator | 2028, 2029 |
| narrow no-break space, medium mathematical space | 202F, 205F |
| ideographic space | 3000 |
-/

import Descent.Text.Slice

namespace Descent
namespace Text

/-- The characters of the property White_Space. -/
def isBlank (c : Char) : Bool :=
  let n := c.toNat
  (0x9 ≤ n && n ≤ 0xD) || n == 0x20 || n == 0x85 || n == 0xA0 || n == 0x1680 ||
    (0x2000 ≤ n && n ≤ 0x200A) || n == 0x2028 || n == 0x2029 || n == 0x202F ||
    n == 0x205F || n == 0x3000

/-- A text without the blank characters at its two ends. -/
def trim (t : Text) : Text :=
  ((t.dropWhile isBlank).reverse.dropWhile isBlank).reverse

/-- A text that neither starts nor ends with a blank character is left alone. -/
theorem trim_eq_self {t : Text} (hfirst : ∀ c ∈ t.head?, isBlank c = false)
    (hlast : ∀ c ∈ t.getLast?, isBlank c = false) : trim t = t := by
  have drop : ∀ {s : Text}, (∀ c ∈ s.head?, isBlank c = false) → s.dropWhile isBlank = s := by
    intro s hs
    cases s with
    | nil => rfl
    | cons c s => simp [List.dropWhile, hs c (by simp)]
  have hrev : t.reverse.dropWhile isBlank = t.reverse :=
    drop fun c hc => hlast c (by simpa [List.head?_reverse] using hc)
  unfold trim
  rw [drop hfirst, hrev, List.reverse_reverse]

end Text
end Descent
