/-
**Engines.**

An engine turns references into secrets.  The embedded engine takes the value out of the reference
itself, a storage engine reads files and takes one scalar out of them, a vault keeps user secrets
by name, and an echo answers with the reference.  What an engine cannot do it says so.

Main definitions:

* `Engine`, with `identifier`, `kind`, `validate`, `validateUser` and `encrypt`;
* `Location.key`, `Location.part` — files in storage references, and the part that is wanted;
* `Embedded.bytes`, `Embedded.secret`, `Embedded.encrypt`;
* `VaultSecret`.
-/

import SecretResolver.Payload.Secret
import SecretResolver.Store.Basic

set_option relaxedAutoImplicit false
set_option autoImplicit false

namespace SecretResolver

/-! ### References into files -/

namespace Location

/-- The parameters of a file, each with the name by which messages know it. -/
def required : List (String × String) :=
  [("b", "Storage bucket"), ("r", "Storage region"), ("f", "Storage file")]

/-- Requires the parameters of a file in their order. -/
def validate (r : EncryptedRef) : Except SecretError Unit :=
  match required.find? fun p => !r.has p.1 with
  | some (name, what) => .error (.invalidFormat (.missingParameter what name))
  | none => .ok ()

/-- A parameter that is required. -/
def parameter (r : EncryptedRef) (name what : String) : Except SecretError String :=
  match r.get? name with
  | some value => .ok value
  | none => .error (.invalidFormat (.missingParameter what name))

/-- The file that a reference leads to. -/
def key (r : EncryptedRef) : Except SecretError ObjectKey := do
  let bucket ← parameter r "b" "Storage bucket"
  let region ← parameter r "r" "Storage region"
  let file ← parameter r "f" "Storage file"
  return ⟨bucket, region, file⟩

/-- The part of a file that a reference asks for: all of it, or the scalar at a path. -/
def part (r : EncryptedRef) (contents : Bytes) : Except SecretError Bytes :=
  match r.get? fieldParameter with
  | none => .ok contents
  | some path =>
      match Document.decodeYaml contents with
      | .error cause => .error (.decryption cause)
      | .ok d =>
          match d.extract path with
          | .error cause => .error (.decryption cause)
          | .ok text => .ok (Utf8.ofString text)

end Location

/-! ### Values within references -/

namespace Embedded

/-- The identifier of the engine whose references hold their values. -/
def identifier : String := "noop"

/-- The parameter that holds the value. -/
def valueParameter : String := "v"

/-- There is no value in the reference. -/
def missingValue : SecretError := .invalidFormat (.missingParameter "Value" valueParameter)

/-- The value of an encrypted reference. -/
def bytes (r : EncryptedRef) : Except SecretError Bytes :=
  match r.get? valueParameter with
  | some value => .ok (Utf8.ofString value)
  | none => .error missingValue

/-- The secret of a user reference: all its parameters but the one that names a field. -/
def secret (r : UserRef) : UserSecret :=
  ⟨⟨PayloadKind.named.name, "", []⟩, .named (r.parameters.erase fieldParameter)⟩

/-- The text of the reference that holds a value. -/
def referenceText (plaintext : String) : String :=
  s!"{encryptedScheme}{identifier}!{valueParameter}:{plaintext}"

/-- The reference that holds a value. -/
def encrypt (plaintext : String) : Except SecretError EncryptedRef :=
  match EncryptedRef.parse (referenceText plaintext) with
  | .ok r => .ok r
  | .error _ => .error (.invalidFormat .notEmbeddable)

end Embedded

/-! ### Vaults -/

/-- A user secret in a vault. -/
structure VaultSecret where
  description : Description
  contents : Payload ⊕ Bytes
  delay : Nat

namespace VaultSecret

/-- The parameter that names a secret. -/
def nameParameter : String := "s"

/-- There is no name in the reference. -/
def missingName : SecretError :=
  .invalidFormat (.other s!"Secret name parameter is missing ({nameParameter}=...)")

/-- The user secret once it is decoded. -/
def open_ (s : VaultSecret) : Except SecretError UserSecret :=
  match s.contents with
  | .inl p => .ok ⟨s.description, p⟩
  | .inr bs =>
      (Payload.decode bs s.description.kind s.description.encoding).map fun p =>
        ⟨s.description, p⟩

end VaultSecret

/-! ### Engines -/

/-- An engine with its state. -/
inductive Engine where
  /-- The engine whose references hold their values. -/
  | embedded
  | storage (id : String) (files : Shared ObjectKey SecretError Bytes)
  | vault (id : String)
  | echo (id : String)

namespace Engine

/-- The identifier of an engine. -/
def identifier : Engine → String
  | .embedded => Embedded.identifier
  | .storage id _ => id
  | .vault id => id
  | .echo id => id

/-- The kind of an engine. -/
def kind : Engine → EngineKind
  | .embedded => .embedded
  | .storage _ _ => .storage
  | .vault _ => .other
  | .echo _ => .other

/-- What an engine cannot do. -/
def unsupported {α : Type} (e : Engine) (operation : String) : Except SecretError α :=
  .error (.unsupported e.identifier operation)

/-- What cannot be done with user secrets in general. -/
def userSecrets : String := "user secrets"

/-- Checks an encrypted reference without resolving it. -/
def validate (e : Engine) (r : EncryptedRef) : Except SecretError Unit :=
  match e with
  | .embedded => (Embedded.bytes r).map fun _ => ()
  | .storage _ _ => Location.validate r
  | _ => .ok ()

/-- Checks a user secret reference without resolving it. -/
def validateUser (e : Engine) (r : UserRef) : Except SecretError Unit :=
  match e with
  | .embedded =>
      if (r.get? Embedded.valueParameter).isSome then .ok () else .error Embedded.missingValue
  | .vault _ =>
      if (r.get? VaultSecret.nameParameter).isSome then .ok () else .error VaultSecret.missingName
  | _ => e.unsupported userSecrets

/-- Makes a reference to a value. -/
def encrypt (e : Engine) (plaintext : String) : Except SecretError EncryptedRef :=
  match e with
  | .embedded => Embedded.encrypt plaintext
  | _ => e.unsupported "encrypt"

/-- The cache of an engine in words, for engines that are known in full. -/
def description? : Engine → Option String
  | .embedded => some "NoopSecretEngine"
  | .storage id files =>
      some (s!"StorageSecretEngine \x7b identifier: {Text.quote id}, downloader: Store, " ++
        s!"cache: SecretCache \x7b settings: {files.cache.limits.description} \x7d \x7d")
  | _ => none

end Engine

end SecretResolver
