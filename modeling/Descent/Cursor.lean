/-
# A place in a text

A cursor is an input, a byte offset in it, and what follows that offset.  An
attempt asks for a text or a character there.  It answers whether that stands at
the cursor, and leaves a cursor: past it, or where it was.

What several attempts have passed is given back by `restore`, for which an earlier
cursor is kept.
-/

import Descent.Error

namespace Descent

/-- A place in an input. -/
structure Cursor where
  input : Text
  /-- The number of bytes before the cursor. -/
  offset : Nat
  /-- What follows the cursor. -/
  rest : Text
  deriving DecidableEq

namespace Cursor

/-- The place before the first character. -/
def start (input : Text) : Cursor := ⟨input, 0, input⟩

/-- The place after a number of bytes, if a character starts there or the input ends. -/
def startingAt (input : Text) (offset : Nat) : Except Error Cursor :=
  match input.drop? offset with
  | some rest => .ok ⟨input, offset, rest⟩
  | none => .error (.outOfBounds offset input.byteLength)

/-- Nothing follows the cursor. -/
def isAtEnd (c : Cursor) : Bool := c.rest.isEmpty

/-- A number of bytes further on, if a character ends there. -/
def advance? (c : Cursor) (bytes : Nat) : Option Cursor :=
  (c.rest.drop? bytes).map fun rest => { c with offset := c.offset + bytes, rest }

/-- Back where the cursor was before. -/
def restore (c earlier : Cursor) : Cursor :=
  { c with offset := earlier.offset, rest := earlier.rest }

/-- Past a text, if it and as many bytes of the input agree. -/
def pastText (agree : Text → Text → Bool) (c : Cursor) (t : Text) : Bool × Cursor :=
  match c.rest.take? t.byteLength, c.advance? t.byteLength with
  | some found, some next => if agree found t then (true, next) else (false, c)
  | _, _ => (false, c)

/-- Past a text that stands at the cursor. -/
def literal (c : Cursor) (t : Text) : Bool × Cursor := c.pastText (· == ·) t

/-- The texts are the same but for the case of ASCII letters. -/
def equalIgnoringCase (a b : Text) : Bool := a.map Char.toLower == b.map Char.toLower

/-- Past a text that stands at the cursor, in any case of its ASCII letters. -/
def literalNoCase (c : Cursor) (t : Text) : Bool × Cursor := c.pastText equalIgnoringCase t

/-- Past the next character, if it satisfies a predicate. -/
def character (c : Cursor) (p : Char → Bool) : Bool × Cursor :=
  match c.rest with
  | next :: rest =>
    if p next then (true, { c with offset := c.offset + next.utf8Size, rest }) else (false, c)
  | [] => (false, c)

end Cursor
end Descent
