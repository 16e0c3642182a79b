/-
**CBOR values.**

The tree that an encoded data item denotes.  Entries of a map are kept in the order in which they
are encoded, repeated keys included.

Main definitions:

* `Cbor.Value`;
* `Cbor.Fault` — why some bytes are no data item.
-/

import SecretResolver.Number.Binary64
import SecretResolver.Text.Utf8

set_option relaxedAutoImplicit false
set_option autoImplicit false

namespace SecretResolver

namespace Cbor

/-- A data item. -/
inductive Value where
  | integer (n : Int)
  | real (x : Binary64)
  | flag (b : Bool)
  | null
  | text (s : String)
  | bytes (bs : Bytes)
  | array (items : List Value)
  | map (entries : List (Value × Value))
  | tagged (tag : Nat) (item : Value)
  deriving Repr, Inhabited

/-- Why some bytes are no data item. -/
inductive Fault where
  /-- A head that does not exist, a text that is none, or an item out of place, at this offset. -/
  | grammar (offset : Nat)
  /-- Anything else: too few bytes, too deep a nesting, an unknown simple value. -/
  | other
  deriving Repr, DecidableEq

end Cbor

end SecretResolver
