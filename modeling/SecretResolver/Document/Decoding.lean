/-
**Documents from JSON, YAML and CBOR.**

The three formats are read into one kind of tree.  Scalars become their texts, tags are dropped,
and where two names turn out the same the first keeps its place and the last its value.  The
members of a JSON object are sorted by name.

Main definitions:

* `Document.ofJson`, `Document.ofYaml`, `Document.ofCbor`;
* `Document.decodeJson`, `Document.decodeYaml`, `Document.decodeCbor`, `Document.decode`.
-/

import SecretResolver.Cbor.Reader
import SecretResolver.Document.Basic
import SecretResolver.Json.Reader

set_option relaxedAutoImplicit false
set_option autoImplicit false

namespace SecretResolver

namespace Document

/-- The text of a truth value. -/
def flagText (b : Bool) : String := if b then "true" else "false"

/-- The mapping of some fields. -/
def gathered (fields : List (String × Document)) : Document := .mapping (Entries.gather fields)

/-! ### JSON -/

/-- Fields in the order of their names. -/
def sortedFields (fields : List (String × Document)) : List (String × Document) :=
  (Entries.gather fields).mergeSort fun a b => decide (a.1 ≤ b.1)

mutual

/-- The document of a JSON value. -/
def ofJson : Json.Value → Document
  | .null => .null
  | .flag b => .scalar (flagText b)
  | .number n => .scalar n.text
  | .text s => .scalar s
  | .array items => .sequence (ofJsonItems items)
  | .object members => .mapping (sortedFields (ofJsonMembers members))

/-- The documents of JSON values. -/
def ofJsonItems : List Json.Value → List Document
  | [] => []
  | v :: vs => ofJson v :: ofJsonItems vs

/-- The fields of a JSON object as they are written. -/
def ofJsonMembers : List (String × Json.Value) → List (String × Document)
  | [] => []
  | (name, v) :: ms => (name, ofJson v) :: ofJsonMembers ms

end

/-! ### YAML -/

/-- The text of a YAML scalar, if it is a value. -/
def yamlText? : Yaml.Scalar → Option String
  | .null => none
  | .flag b => some (flagText b)
  | .integer n => some (toString n)
  | .real x => some (FloatStyle.compact.write x)
  | .text s => some s

/-- The name that a YAML key makes, if it is no collection. -/
def yamlName? : Yaml.Node → Option String
  | .scalar s => some ((yamlText? s).getD "null")
  | .tagged _ n => yamlName? n
  | _ => none

mutual

/-- The document of a YAML node. -/
def ofYaml : Yaml.Node → Document
  | .scalar s => ((yamlText? s).map .scalar).getD .null
  | .sequence items => .sequence (ofYamlItems items)
  | .mapping entries => gathered (ofYamlEntries entries)
  | .tagged _ n => ofYaml n

/-- The documents of YAML nodes. -/
def ofYamlItems : List Yaml.Node → List Document
  | [] => []
  | n :: ns => ofYaml n :: ofYamlItems ns

/-- The fields of a YAML mapping; an entry whose key makes no name is dropped. -/
def ofYamlEntries : List (Yaml.Node × Yaml.Node) → List (String × Document)
  | [] => []
  | (k, v) :: es =>
      match yamlName? k with
      | some name => (name, ofYaml v) :: ofYamlEntries es
      | none => ofYamlEntries es

end

/-! ### CBOR -/

/-- The text of a CBOR item, if it is a value and no collection. -/
def cborText? : Cbor.Value → Option String
  | .integer n => some (toString n)
  | .real x => some (FloatStyle.plain.write x)
  | .flag b => some (flagText b)
  | .text s => some s
  | .bytes bs => Utf8.text? bs
  | .tagged _ v => cborText? v
  | _ => none

mutual

/-- The document of a CBOR item. -/
def ofCbor : Cbor.Value → Document
  | .array items => .sequence (ofCborItems items)
  | .map entries => gathered (ofCborEntries entries)
  | .tagged _ v => ofCbor v
  | v => ((cborText? v).map .scalar).getD .null

/-- The documents of CBOR items. -/
def ofCborItems : List Cbor.Value → List Document
  | [] => []
  | v :: vs => ofCbor v :: ofCborItems vs

/-- The fields of a CBOR map; an entry whose key makes no name is dropped. -/
def ofCborEntries : List (Cbor.Value × Cbor.Value) → List (String × Document)
  | [] => []
  | (k, v) :: es =>
      match cborText? k with
      | some name => (name, ofCbor v) :: ofCborEntries es
      | none => ofCborEntries es

end

/-! ### Decoding -/

/-- The cause of a JSON fault in some bytes. -/
def jsonCause (bs : Bytes) (fault : Json.Fault) : DecryptionCause :=
  .json fault.kind (fault.position bs)

/-- The document of a JSON text. -/
def decodeJson (bs : Bytes) : Except DecryptionCause Document :=
  match Json.read bs with
  | .error fault => .error (jsonCause bs fault)
  | .ok v => .ok (ofJson v)

/-- The document of a YAML stream. -/
def decodeYaml (bs : Bytes) : Except DecryptionCause Document :=
  match Yaml.read bs with
  | .error fault => .error (.yaml fault)
  | .ok n => .ok (ofYaml n)

/-- The document of a CBOR item. -/
def decodeCbor (bs : Bytes) : Except DecryptionCause Document :=
  match Cbor.read bs with
  | .error fault => .error (.cbor fault)
  | .ok v => .ok (ofCbor v)

/-- The document of some bytes in an encoding. -/
def decode (bs : Bytes) : Encoding → Except DecryptionCause Document
  | .json => decodeJson bs
  | .yaml => decodeYaml bs
  | .cbor => decodeCbor bs

end Document

end SecretResolver
