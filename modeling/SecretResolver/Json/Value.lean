/-
**JSON values.**

The tree that a JSON text denotes.  Members of an object are kept as they are written, repeated
names included: which of them counts is for the user of the value to say.

Main definitions:

* `Json.Number`, `Json.Number.text`;
* `Json.Value`;
* `Json.Fault` — why a text is no JSON, or not the JSON that is wanted.
-/

import SecretResolver.Number.Layout
import SecretResolver.Text.Position

set_option relaxedAutoImplicit false
set_option autoImplicit false

namespace SecretResolver

namespace Json

/-- A number: an integer that fits 64 bits, signed or not, or a double. -/
inductive Number where
  /-- A whole number written without fraction and exponent. -/
  | integer (n : Int)
  | real (x : Binary64)
  deriving Repr, DecidableEq

/-- The text of a number. -/
def Number.text : Number → String
  | .integer n => toString n
  | .real x => FloatStyle.signedExponent.write x

/-- A JSON value. -/
inductive Value where
  | null
  | flag (b : Bool)
  | number (n : Number)
  | text (s : String)
  | array (items : List Value)
  /-- Names with values, in the order in which they are written. -/
  | object (members : List (String × Value))
  deriving Repr, Inhabited

/-! ### Faults -/

/-- The kinds of fault. -/
inductive FaultKind where
  | grammar
  | ended
  | shape
  deriving Repr, DecidableEq

/-- A fault, found with `left` bytes still to be read. -/
structure Fault where
  kind : FaultKind
  left : Nat
  deriving Repr, DecidableEq

/-- Where a fault lies in the text in which it was found. -/
def Fault.position (f : Fault) (bs : Bytes) : Position :=
  .after (bs.take (bs.length - f.left))

end Json

end SecretResolver
