/-
**Payloads.**

The decrypted contents of a user secret: named texts in the order in which they came, or a single
text.

Main definitions:

* `Payload`, `Payload.kind`, `Payload.get?`;
* `Payload.sameAs` — equality up to the order of the names;
* `Payload.redacted` — a description that shows no text.
-/

import SecretResolver.Payload.Kind
import SecretResolver.Table
import SecretResolver.Text.Quoted

set_option relaxedAutoImplicit false
set_option autoImplicit false

namespace SecretResolver

/-- What stands wherever a text is not to be shown. -/
def redactedText : String := "[REDACTED]"

/-- The description of a text that is not to be shown. -/
def redactedString : String := s!"SecretString({redactedText})"

/-- The description of bytes that are not to be shown. -/
def redactedBytes (size : Nat) : String := s!"SecretBytes([REDACTED; {size} bytes])"

/-- The contents of a user secret. -/
inductive Payload where
  | named (values : Table String)
  | single (value : String)
  deriving Repr, DecidableEq

namespace Payload

/-- The kind of a payload. -/
def kind : Payload → PayloadKind
  | .named _ => .named
  | .single _ => .single

/-- The text with a name; a single text has every name. -/
def get? (p : Payload) (name : String) : Option String :=
  match p with
  | .named values => values.get? name
  | .single value => some value

/-- Equality up to the order of the names. -/
def sameAs : Payload → Payload → Bool
  | .named s, .named t => s.sameAs t
  | .single s, .single t => s == t
  | _, _ => false

theorem sameAs_refl (p : Payload) : p.sameAs p = true := by
  cases p with
  | named values => exact Table.sameAs_of_perm (.refl _)
  | single value => exact beq_self_eq_true value

/-- A description that shows the names only. -/
def redacted : Payload → String
  | .named values =>
      "Opaque(\x7b" ++
        Text.commaList (values.names.map fun name => Text.quote name ++ ": " ++ redactedString) ++
        "\x7d)"
  | .single _ => s!"String({redactedString})"

end Payload

end SecretResolver
