/-
**Encoded payloads.**

A payload travels as bytes together with the name of its kind and the name of its encoding.

Main definitions:

* `Payload.ofDocument` — a document as a payload of some kind;
* `Payload.decode`, `Payload.encode`.
-/

import SecretResolver.Cbor.Writer
import SecretResolver.Document.Decoding
import SecretResolver.Json.Writer
import SecretResolver.Payload.Basic
import SecretResolver.Yaml.Writer

set_option relaxedAutoImplicit false
set_option autoImplicit false

namespace SecretResolver

/-- The kind of payload with a name. -/
def payloadKind (name : String) : Except SecretError PayloadKind :=
  match PayloadKind.ofName? name with
  | some kind => .ok kind
  | none => .error (.invalidFormat (.payloadKind name))

/-- The encoding with a name. -/
def payloadEncoding (name : String) : Except SecretError Encoding :=
  match Encoding.ofName? name with
  | some encoding => .ok encoding
  | none => .error (.invalidFormat (.encoding name))

namespace Payload

/-- A document as a payload. -/
def ofDocument (d : Document) : PayloadKind → Except DecryptionCause Payload
  | .named => d.namedTexts.map .named
  | .single => d.singleText.map .single

/-- The payload of some bytes, of a known kind and encoding. -/
def decodeAs (bs : Bytes) (kind : PayloadKind) (encoding : Encoding) :
    Except DecryptionCause Payload :=
  match Document.decode bs encoding with
  | .error cause => .error cause
  | .ok d => ofDocument d kind

/-- The payload of some bytes; kind and encoding are given by their names. -/
def decode (bs : Bytes) (kind encoding : String) : Except SecretError Payload :=
  match payloadKind kind with
  | .error e => .error e
  | .ok kind =>
      match payloadEncoding encoding with
      | .error e => .error e
      | .ok encoding => (decodeAs bs kind encoding).mapError .decryption

/-- Named texts as a JSON object. -/
def jsonObject (es : List (String × String)) : List Char :=
  Json.writeMembers (es.map fun e => (e.1, Json.writeText e.2))

/-- The bytes of a payload. -/
def encodeAs (p : Payload) (encoding : Encoding) : Bytes :=
  match p, encoding with
  | .named values, .json => Utf8.encode (jsonObject values.entries)
  | .named values, .yaml => Utf8.encode (Yaml.writeMapping values.entries)
  | .named values, .cbor => Cbor.writeMap values.entries
  | .single value, .json => Utf8.encode (Json.writeText value)
  | .single value, .yaml => Utf8.encode (Yaml.writeDocument value)
  | .single value, .cbor => Cbor.writeText value

/-- The bytes of a payload; the encoding is given by its name. -/
def encode (p : Payload) (encoding : String) : Except SecretError Bytes :=
  match payloadEncoding encoding with
  | .error e => .error e
  | .ok encoding => .ok (p.encodeAs encoding)

end Payload

end SecretResolver
