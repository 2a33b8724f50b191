/-
# Terminals

The terminals of ABNF, as values and as they are written:

| terminal | written |
| --- | --- |
| `range`, the characters between two numbers | `%x30-39` |
| `values`, the characters with these numbers, in order | `%d13.10` |
| `quoted`, a text in either case of its letters | `"IN"`, `%i"IN"` |
| `quoted` and case sensitive | `%s"IN"` |

The letter after `%` gives the base of the numbers; it may be large.  A number
has at most 32 bits.  A second bound or a further value that cannot be read is
not an element of the notation, which is then refused at its mark, `-` or `.`.

`validate` holds of what can be read: a range does not run backwards, and the
values of a sequence are numbers of characters.  `render` writes a terminal.
-/

import Descent.Notation.Reader

namespace Descent
namespace Notation

/-- The base of the numbers of a terminal. -/
inductive Base where
  | binary
  | decimal
  | hex
  deriving DecidableEq, Repr

namespace Base

/-- How many digits the base has. -/
def radix : Base → Nat
  | binary => 2
  | decimal => 10
  | hex => 16

/-- The letter that stands for the base. -/
def letter : Base → Char
  | binary => 'b'
  | decimal => 'd'
  | hex => 'x'

/-- A number in the base; hexadecimal ones have two digits or more, the letters large. -/
def write (base : Base) (n : UInt32) : Text :=
  match base with
  | hex => Text.Numeral.writeHex n.toNat
  | _ => Text.Numeral.write base.radix n.toNat

/-- The base for which a letter stands, small or large. -/
def ofLetter? (c : Char) : Option Base :=
  match c.toLower with
  | 'x' => some hex
  | 'd' => some decimal
  | 'b' => some binary
  | _ => none

@[simp] theorem ofLetter?_letter (base : Base) : ofLetter? base.letter = some base := by
  cases base <;> decide

end Base

/-- What a rule may ask for without naming another rule. -/
inductive Terminal where
  /-- One character with a number between two bounds. -/
  | range (base : Base) (lo hi : UInt32)
  /-- Characters with these numbers, one after another. -/
  | values (base : Base) (numbers : List UInt32)
  /-- A text, in its own spelling or in any case of its ASCII letters. -/
  | quoted (text : Text) (caseSensitive : Bool)
  deriving DecidableEq, Repr

namespace Terminal

/-- The number belongs to a character. -/
def isScalar (n : UInt32) : Bool := n < 0xD800 || (0xDFFF < n && n < 0x110000)

/-- The bounds of a range are in order and the values of a sequence are numbers of characters. -/
def validate : Terminal → Except Error Unit
  | range _ lo hi => if hi < lo then .error (.rangeInverted lo hi) else .ok ()
  | values _ numbers =>
    match numbers.find? (!isScalar ·) with
    | some n => .error (.notScalar n)
    | none => .ok ()
  | quoted _ _ => .ok ()

/-- The notation of a terminal. -/
def render : Terminal → Text
  | range base lo hi => '%' :: base.letter :: (base.write lo ++ '-' :: base.write hi)
  | values base numbers => '%' :: base.letter :: ['.'].intercalate (numbers.map base.write)
  | quoted text true => '%' :: 's' :: '"' :: (text ++ ['"'])
  | quoted text false => '"' :: (text ++ ['"'])

/-- A number of 32 bits in the base. -/
def numeral (base : Base) : Reader UInt32 := fun t =>
  match number? base.radix t with
  | none => .error (.malformed .digits t)
  | some (n, rest) =>
    if n < UInt32.size then .ok (n.toUInt32, rest) else .error (.malformed .number t)

/-- A further number after its mark. -/
def marked? (mark : Char) (base : Base) : Text → Option (UInt32 × Text)
  | c :: t => if c = mark then (numeral base t).toOption else none
  | [] => none

theorem length_lt_of_marked? {mark : Char} {base : Base} {t rest : Text} {n : UInt32}
    (h : marked? mark base t = some (n, rest)) : rest.length < t.length := by
  cases t with
  | nil => simp [marked?] at h
  | cons c t =>
    simp only [marked?, numeral] at h
    split at h
    · split at h
      · simp [Except.toOption] at h
      · rename_i hnum
        have := length_lt_of_number? hnum
        split at h
        · simp only [Except.toOption, Option.some.injEq, Prod.mk.injEq] at h
          obtain ⟨-, rfl⟩ := h
          simp
          omega
        · simp [Except.toOption] at h
    · simp at h

/-- As many further values as can be read, and the text after them. -/
def further (base : Base) (t : Text) : List UInt32 × Text :=
  match _h : marked? '.' base t with
  | some (n, rest) =>
    let (numbers, rest) := further base rest
    (n :: numbers, rest)
  | none => ([], t)
termination_by t.length
decreasing_by exact length_lt_of_marked? _h

/-- A range or a sequence of values. -/
def numeric : Reader Terminal
  | '%' :: t =>
    match t with
    | c :: t' =>
      match Base.ofLetter? c with
      | none => .error (.malformed .tag t)
      | some base => do
        let (first, rest) ← numeral base t'
        match marked? '-' base rest with
        | some (hi, rest) => return (range base first hi, rest)
        | none =>
          let (numbers, rest) := further base rest
          return (values base (first :: numbers), rest)
    | [] => .error (.malformed .tag t)
  | t => .error (.malformed .tag t)

/-- The mark for the case of a quoted text, and the text after it. -/
def caseMark : Text → Bool × Text
  | '%' :: c :: t =>
    if c.toLower = 's' then (true, t)
    else if c.toLower = 'i' then (false, t)
    else (false, '%' :: c :: t)
  | t => (false, t)

/-- A text between quotes; no quote stands inside. -/
def quotation? (t : Text) : Option (Terminal × Text) :=
  match caseMark t with
  | (caseSensitive, '"' :: t) =>
    match t.dropWhile (· != '"') with
    | _ :: rest => some (quoted (t.takeWhile (· != '"')) caseSensitive, rest)
    | [] => none
  | _ => none

/-- A terminal: the quoted form is tried first, and the fault is that of the numeric one. -/
def element : Reader Terminal := fun t =>
  match quotation? t with
  | some found => .ok found
  | none => numeric t

/-- Reads the notation of a terminal. -/
def read (t : Text) : Except Error Terminal := do
  let terminal ← whole element t
  terminal.validate
  return terminal

/-- A range is read with its two bounds, in either case of its letters. -/
example : read "%X1f-fF".toList = .ok (range .hex 0x1F 0xFF) := by cbv

/-- A range that runs backwards is read, and refused for its values. -/
example : read "%x39-30".toList = .error (.rangeInverted 0x39 0x30) := by cbv

/-- A mark without a number after it is not part of the terminal. -/
example : read "%d13.10.".toList = .error (.malformed .finish ['.']) := by cbv

end Terminal
end Notation
end Descent
