/-
**User secrets.**

A user secret is a payload with a description: the names of its kind and its encoding, and the
roles that may use it.  Descriptions are kept as JSON records in which only the kind is required.

Main definitions:

* `Description`, `Description.read`, `Description.write`;
* `UserSecret`.
-/

import SecretResolver.Json.Typed
import SecretResolver.Payload.Coding

set_option relaxedAutoImplicit false
set_option autoImplicit false

namespace SecretResolver

/-- What is known about a user secret besides its payload. -/
structure Description where
  kind : String
  encoding : String
  roles : List String
  deriving Repr, DecidableEq

namespace Description

/-- A description that is being read. -/
structure Draft where
  kind : Option String
  encoding : Option String
  roles : Option (List String)
  deriving Repr, DecidableEq

/-- The fields of a description. -/
def fields : List (Json.Field Draft) := [
  ⟨"type", fun d => d.kind.isSome, fun d bs =>
    Json.mapResult (fun s => { d with kind := some s }) (Json.typedText bs)⟩,
  ⟨"encoding", fun d => d.encoding.isSome, fun d bs =>
    Json.mapResult (fun s => { d with encoding := some s }) (Json.typedText bs)⟩,
  ⟨"roles", fun d => d.roles.isSome, fun d bs =>
    Json.mapResult (fun ss => { d with roles := some ss }) (Json.typedTexts bs)⟩]

/-- The description of a draft that has a kind. -/
def ofDraft? (d : Draft) : Option Description :=
  d.kind.map fun kind => ⟨kind, d.encoding.getD "", d.roles.getD []⟩

/-- Reads a description. -/
def read (bs : Bytes) : Except SecretError Description :=
  match Json.whole (Json.record fields ⟨none, none, none⟩ ofDraft?) bs with
  | .ok d => .ok d
  | .error fault => .error (.decryption (Document.jsonCause bs fault))

/-- Writes a description. -/
def write (d : Description) : String :=
  String.ofList (Json.writeMembers [
    ("type", Json.writeText d.kind),
    ("encoding", Json.writeText d.encoding),
    ("roles", Json.writeTexts d.roles)])

end Description

/-- A user secret. -/
structure UserSecret where
  description : Description
  payload : Payload
  deriving Repr, DecidableEq

namespace UserSecret

/-- The text with a name. -/
def get? (s : UserSecret) (name : String) : Option String := s.payload.get? name

end UserSecret

/-! ### Secrets as bytes and as texts -/

/-- The text that decrypted bytes are. -/
def textOfBytes (bs : Bytes) : Except SecretError String :=
  match Utf8.text? bs with
  | some s => .ok s
  | none => .error (.decryption .notText)

/-- The text that a JSON payload is. -/
def textOfJson (bs : Bytes) : Except SecretError String :=
  match Json.whole Json.typedText bs with
  | .ok s => .ok s
  | .error fault => .error (.decryption (Document.jsonCause bs fault))

end SecretResolver
