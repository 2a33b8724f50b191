/-
# Spans

A span is a stretch of an input.  Two spans of one input are related in one of
four ways, or they overlap in part; the first of these that holds is the answer:

| relation of `a` to `b` | when |
| --- | --- |
| `before` | `a` ends where `b` starts, or earlier |
| `after` | `a` starts where `b` ends, or later |
| `within` | `a` lies inside `b`, or is the same stretch |
| `encompasses` | `b` lies inside `a` |

Spans are compared by the text they cover, wherever it stands.

An input is known by its text, and has no other identity: spans belong to one input when the texts
of their inputs are the same.  Where an input is known by the address at which it is stored, equal
texts at two addresses are two inputs, and no span of one is related to a span of the other.  This
case is not told apart here; whatever is said of the spans of one input holds for both readings.
-/

import Descent.Text.Quoted

namespace Descent

/-- A stretch of an input, from byte `start` up to byte `stop`. -/
structure Span where
  input : Text
  start : Nat
  stop : Nat

namespace Span

/-- Where a span lies, seen from another one. -/
inductive Location where
  | before
  | after
  | within
  | encompasses
  deriving DecidableEq, Repr

/-- The text that the span covers, if its ends are boundaries in order. -/
def text? (s : Span) : Option Text := s.input.slice? s.start s.stop

/-- The text that the span covers. -/
def text (s : Span) : Text := s.text?.getD []

/-- The number of bytes of the span. -/
def length (s : Span) : Nat := s.stop - s.start

/-- The span covers no text. -/
def isEmpty (s : Span) : Bool := s.start == s.stop

/-- The spans cover the same text. -/
def sameText (a b : Span) : Bool := a.text == b.text

/-- Where `a` lies, seen from `b`; none when they overlap in part or belong to inputs with
different texts. -/
def relativeTo (a b : Span) : Option Location :=
  if a.input ≠ b.input then none
  else if a.start ≤ b.start ∧ a.stop ≤ b.start then some .before
  else if b.stop ≤ a.start then some .after
  else if b.start ≤ a.start ∧ a.stop ≤ b.stop then some .within
  else if a.start ≤ b.start ∧ b.stop ≤ a.stop then some .encompasses
  else none

/-- `b` lies inside `a`, both in inputs with one text. -/
def contains (a b : Span) : Bool := a.input == b.input && a.start ≤ b.start && b.stop ≤ a.stop

/-- The ends of the span and its text between quotes. -/
def describe (s : Span) : Text :=
  Text.Numeral.write 10 s.start ++ '.' :: '.' :: Text.Numeral.write 10 s.stop ++
    ' ' :: s.text.quoted

end Span
end Descent
