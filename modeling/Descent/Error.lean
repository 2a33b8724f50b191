/-
# Why a parse gives no tree

| error | fatal | meaning |
| --- | --- | --- |
| `noMatch` | no | the rule does not match the input |
| `trailingInput` | no | the rule leaves some of the input |
| `encoding` | yes | the bytes are no text |
| `unknownRule` | yes | no rule goes by the name |
| `recursionLimit` | yes | too many rules are active at once |
| `badNotation` | yes | a notation cannot be read, or its bounds are out of order |
| `rootCount` | yes | the rule leaves no node or several |
| `outOfBounds` | yes | the offset is no place of the input |

A fatal error comes from the grammar or from the request, not from an input that
does not fit.
-/

import Descent.Diagnostics
import Descent.Notation.Error
import Descent.Text.Utf8

namespace Descent

/-- Why a parse gives no tree. -/
inductive Error where
  /-- With the furthest failure, the rules active there, and the log when tracing. -/
  | noMatch (rule : Text) (furthest : Nat) (stack : List Text) (trace : Option (List (Event Text)))
  | trailingInput (rule : Text) (consumed length : Nat)
  | encoding (cause : Text.Utf8.Invalid)
  | unknownRule (name : Text)
  | recursionLimit (limit offset : Nat)
  | badNotation (source : Text) (cause : Notation.Error)
  | rootCount (rule : Text) (count : Nat)
  | outOfBounds (offset length : Nat)
  deriving DecidableEq

namespace Error

/-- The error is not about an input that does not fit. -/
def isFatal : Error → Bool
  | noMatch .. => false
  | trailingInput .. => false
  | _ => true

/-- The wording of the error. -/
def message : Error → String
  | noMatch rule furthest _ _ =>
    s!"rule '{String.ofList rule}' did not match, furthest offset reached: {furthest}"
  | trailingInput rule consumed length =>
    s!"rule '{String.ofList rule}' consumed {consumed} of {length} bytes"
  | encoding cause => s!"input is not valid UTF-8: {cause.message}"
  | unknownRule name => s!"unknown rule '{String.ofList name}'"
  | recursionLimit limit offset => s!"recursion limit of {limit} exceeded at offset {offset}"
  | badNotation source _ => s!"invalid ABNF notation '{String.ofList source}'"
  | rootCount rule count =>
    s!"parse function for '{String.ofList rule}' produced {count} root nodes"
  | outOfBounds offset length =>
    s!"offset {offset} is out of bounds for input of length {length}"

end Error
end Descent
