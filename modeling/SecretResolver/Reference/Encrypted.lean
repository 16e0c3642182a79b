/-
**Encrypted references.**

`encrypted:<engine>!<name>:<value>!…!<name>:<value>` names an engine and gives it parameters.  The
engine is any non-empty text without `!`; only the first `:` of a segment delimits, so values may
hold further ones; `encrypted` is no parameter name; there is at least one parameter.

Main definitions:

* `EncryptedRef`, `EncryptedRef.parse`, `EncryptedRef.text`;
* `EncryptedRef.sameAs` — equality up to the order of parameters.
-/

import SecretResolver.Reference.Parameters

set_option relaxedAutoImplicit false
set_option autoImplicit false

namespace SecretResolver

/-- What every encrypted reference begins with. -/
def encryptedScheme : String := "encrypted:"

/-- The parameter that names the field to take out of a decrypted document or user secret. -/
def fieldParameter : String := "k"

/-- Why a text is no encrypted reference. -/
inductive EncryptedFault where
  | scheme
  | engine
  | parameter (fault : Parameters.Fault)
  | bare
  deriving Repr, DecidableEq

/-- The reason in words. -/
def EncryptedFault.message (fault : EncryptedFault) : String :=
  "Invalid encrypted secret format, " ++
    match fault with
    | .scheme => s!"must start with '{encryptedScheme}'"
    | .engine => "engine identifier is empty"
    | .parameter fault => fault.detail "keys and values must be delimited by ':'"
    | .bare => "must have at least one parameter"

/-- An engine with parameters, in the order in which they are written. -/
structure EncryptedRef where
  engine : String
  parameters : Table String
  deriving Repr, DecidableEq

namespace EncryptedRef

/-- Segments stand between `!` and have the form `name:value`. -/
def grammar : Parameters.Grammar := ⟨'!', ':', ["encrypted"]⟩

/-- Reads what follows the scheme. -/
def parseBody (cs : List Char) : Except EncryptedFault EncryptedRef :=
  match Text.splitAll grammar.separator cs with
  | [] => .error .engine
  | engine :: segments =>
      if engine.isEmpty then .error .engine
      else
        match Parameters.read grammar segments with
        | .error fault => .error (.parameter fault)
        | .ok ps =>
            if ps.entries.isEmpty then .error .bare else .ok ⟨String.ofList engine, ps⟩

/-- Reads an encrypted reference. -/
def parse (text : String) : Except EncryptedFault EncryptedRef :=
  match Text.dropStart encryptedScheme.toList text.toList with
  | none => .error .scheme
  | some rest => parseBody rest

/-- Whether a text is an encrypted reference. -/
def isReference (text : String) : Bool :=
  (Text.dropStart encryptedScheme.toList text.toList).isSome && (parse text).toOption.isSome

/-- The reference that a text is, if it is one. -/
def parse? (text : String) : Option EncryptedRef := (parse text).toOption

/-- The text of a reference. -/
def text (r : EncryptedRef) : String :=
  String.ofList (encryptedScheme.toList ++
    Text.joinWith grammar.separator (r.engine.toList :: Parameters.write grammar r.parameters))

/-- The value of a parameter. -/
def get? (r : EncryptedRef) (name : String) : Option String := r.parameters.get? name

/-- Whether a parameter is given. -/
def has (r : EncryptedRef) (name : String) : Bool := r.parameters.contains name

/-- Equality up to the order of parameters. -/
def sameAs (r s : EncryptedRef) : Bool :=
  r.engine == s.engine && r.parameters.sameAs s.parameters

end EncryptedRef

end SecretResolver
