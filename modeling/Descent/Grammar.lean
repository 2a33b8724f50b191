/-
# Grammars

Bodies under rule names.  Names that differ in the case of their letters alone
are one name, which keeps the spelling in which it was given first; giving a
body to a name again replaces the body.

| function | input | answer |
| --- | --- | --- |
| `parse` | a text | the root |
| `parseWith` | a text, with options | the root, its length and the log |
| `parseComplete` | a text | the root, if it took all of it |
| `parseBytes` | bytes | the root |

Bytes are read as UTF-8 before the name is looked up.
-/

import Descent.Notation.RuleName
import Descent.Parse

namespace Descent

open Notation (RuleName)

/-- Bodies under rule names, in the order in which the names were first given. -/
structure Grammar (R : Type) where
  entries : List (RuleName × Body R)

namespace Grammar

variable {R : Type}

/-- No rules. -/
def empty : Grammar R := ⟨[]⟩

/-- The entries with one more body: in the place of the name, or else at the end. -/
def assign (name : RuleName) (body : Body R) :
    List (RuleName × Body R) → List (RuleName × Body R)
  | [] => [(name, body)]
  | (other, found) :: entries =>
    if other == name then (other, body) :: entries
    else (other, found) :: assign name body entries

/-- Gives a body to a name. -/
def insert (g : Grammar R) (name : Text) (body : Body R) : Except Error (Grammar R) :=
  match RuleName.read name with
  | .ok key => .ok ⟨assign key body g.entries⟩
  | .error cause => .error (.badNotation name cause)

/-- The body of a name. -/
def lookup (g : Grammar R) (name : RuleName) : Option (Body R) :=
  (g.entries.find? fun entry => entry.1 == name).map Prod.snd

/-- The body of a name, blank characters around it apart. -/
def get (g : Grammar R) (name : Text) : Except Error (Body R) :=
  match (RuleName.read name).toOption.bind g.lookup with
  | some body => .ok body
  | none => .error (.unknownRule name)

/-- The name has a body. -/
def contains (g : Grammar R) (name : Text) : Bool := (g.get name).isOk

/-- The names, in the spelling in which each was given first. -/
def names (g : Grammar R) : List Text := g.entries.map (·.1.spelling)

/-- The number of names. -/
def size (g : Grammar R) : Nat := g.entries.length

/-- There is no name. -/
def isEmpty (g : Grammar R) : Bool := g.entries.isEmpty

/-- The names between braces. -/
def describe (g : Grammar R) : Text :=
  '\x7b' :: (", ".toList.intercalate (g.names.map Text.quoted) ++ ['\x7d'])

variable [Tag R]

/-- Parses a beginning of a text with the body of a name. -/
def parseWith (g : Grammar R) (name input : Text) (config : Config) : Answer (Parsed R) :=
  match g.get name with
  | .ok body => Parse.run name body input config
  | .error e => some (.error e)

/-- Parses a beginning of a text with the standard options. -/
def parse (g : Grammar R) (name input : Text) : Answer (Node R) :=
  (g.parseWith name input .standard).map (·.map Parsed.node)

/-- The root of a parse that took all of the input. -/
def complete (name : Text) (p : Parsed R) : Except Error (Node R) :=
  if p.isComplete then .ok p.node else .error (.trailingInput name p.consumed p.inputLength)

/-- Parses a whole text with the standard options. -/
def parseComplete (g : Grammar R) (name input : Text) : Answer (Node R) :=
  (g.parseWith name input .standard).map (· >>= complete name)

/-- Parses a beginning of a text that is given as bytes, with the standard options. -/
def parseBytes (g : Grammar R) (name : Text) (bytes : List UInt8) : Answer (Node R) :=
  match Text.Utf8.decode bytes with
  | .ok input => g.parse name input
  | .error cause => some (.error (.encoding cause))

end Grammar
end Descent
