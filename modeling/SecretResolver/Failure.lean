/-
**Failures.**

Everything that can go wrong on the way from a reference to a secret, as a kind with a cause.  The
wording of each is found here and nowhere else.  No message holds anything of a secret: a payload
that cannot be read is described by a place in it.

Main definitions:

* `NodeKind`, `ObjectKey` — what messages speak of;
* `FormatCause`, `DecryptionCause`, `FetchCause`, `ConfigCause`;
* `SecretError`, with `message`, `kind`, `code` and `isRetryable`.
-/

import SecretResolver.Cbor.Value
import SecretResolver.Json.Value
import SecretResolver.Payload.Kind
import SecretResolver.Reference.User
import SecretResolver.Text.Quoted
import SecretResolver.Yaml.Node

set_option relaxedAutoImplicit false
set_option autoImplicit false

namespace SecretResolver

/-! ### What messages speak of -/

/-- The kinds of node in a document. -/
inductive NodeKind where
  | scalar
  | mapping
  | sequence
  | null
  deriving Repr, DecidableEq

/-- The name of a kind of node. -/
def NodeKind.name : NodeKind → String
  | .scalar => "scalar"
  | .mapping => "mapping"
  | .sequence => "sequence"
  | .null => "null"

/-- What identifies a file in an object store. -/
structure ObjectKey where
  bucket : String
  region : String
  file : String
  deriving Repr, DecidableEq

/-- The text of an object key. -/
def ObjectKey.text (k : ObjectKey) : String := s!"{k.bucket}/{k.file} ({k.region})"

/-! ### References and parameters -/

/-- Why a reference or something that is named in it has the wrong form. -/
inductive FormatCause where
  | encrypted (fault : EncryptedFault)
  | user (fault : UserFault)
  /-- A parameter is missing, which is known as `what`. -/
  | missingParameter (what name : String)
  | notEmbeddable
  | payloadKind (name : String)
  | encoding (name : String)
  | other (text : String)
  deriving Repr, DecidableEq

/-- Some names in brackets. -/
def knownNames (names : List String) : String := "[" ++ Text.commaList names ++ "]"

/-- The cause in words. -/
def FormatCause.text : FormatCause → String
  | .encrypted fault => fault.message
  | .user fault => fault.message
  | .missingParameter what name => s!"{what} parameter is missing ({name}:...)"
  | .notEmbeddable => "value cannot be embedded in a reference (empty or '!')"
  | .payloadKind name =>
      s!"Unsupported user secret type: {name}. Known user secret types: " ++
        knownNames (PayloadKind.all.map PayloadKind.name)
  | .encoding name =>
      s!"Unsupported user secret encoding: {name}. Known encoding formats: " ++
        knownNames (Encoding.all.map Encoding.name)
  | .other text => text

/-! ### Payloads -/

/-- Why a payload could not be decoded or the wanted part of it not be found. -/
inductive DecryptionCause where
  | notText
  | yaml (fault : Yaml.Fault)
  /-- The payload is no JSON, or not of the wanted shape. -/
  | json (kind : Json.FaultKind) (position : Position)
  | cbor (fault : Cbor.Fault)
  | noField (segment path : String)
  /-- A segment of the path is no index of a sequence. -/
  | notIndex (segment path : String)
  | outOfRange (index size : Nat) (path : String)
  /-- Nothing can be selected from a node of this kind. -/
  | notSelectable (segment : String) (kind : NodeKind) (path : String)
  | notScalar (path : String) (kind : NodeKind)
  | notMapping (kind : NodeKind)
  | fieldNotScalar (name : String) (kind : NodeKind)
  | notString (kind : NodeKind)
  | other (text : String)
  deriving Repr, DecidableEq

/-- The name of a kind of JSON fault. -/
def jsonFaultName : Json.FaultKind → String
  | .grammar => "Syntax"
  | .ended => "Eof"
  | .shape => "Data"

/-- A place in a payload in words. -/
def placeText (p : Position) : String := s!"line {p.line}, column {p.column}"

/-- What a path was being resolved for. -/
def whileResolving (path : String) : String := s!" while resolving key path '{path}'"

/-- The cause in words. -/
def DecryptionCause.text : DecryptionCause → String
  | .notText => "secret value is not valid UTF-8"
  | .yaml (.at_ p) => s!"secret document is not valid YAML ({placeText p})"
  | .yaml .nowhere => "secret document is not valid YAML"
  | .json kind p =>
      s!"secret payload is not valid JSON ({jsonFaultName kind} error at {placeText p})"
  | .cbor (.grammar offset) =>
      s!"secret payload is not valid CBOR (syntax error at byte {offset})"
  | .cbor .other => "secret payload is not valid CBOR"
  | .noField segment path => s!"no field '{segment}'" ++ whileResolving path
  | .notIndex segment path => s!"'{segment}' is not a sequence index" ++ whileResolving path
  | .outOfRange index size path =>
      s!"index {index} is out of range ({size} items)" ++ whileResolving path
  | .notSelectable segment kind path =>
      s!"cannot select '{segment}' from a {kind.name}" ++ whileResolving path
  | .notScalar path kind => s!"key path '{path}' selects a {kind.name}, expected a scalar"
  | .notMapping kind => s!"expected a mapping of strings, found a {kind.name}"
  | .fieldNotScalar name kind => s!"field '{name}' is a {kind.name}, expected a scalar"
  | .notString kind => s!"expected a string, found a {kind.name}"
  | .other text => text

/-! ### Stores -/

/-- Why a file could not be fetched. -/
inductive FetchCause where
  | noObject
  | bucketPath
  | filePath
  /-- The file at this path cannot be read, for this reason. -/
  | unreadable (path reason : String)
  | other (text : String)
  deriving Repr, DecidableEq

/-- The cause in words. -/
def FetchCause.text : FetchCause → String
  | .noObject => "no such object"
  | .bucketPath => "bucket must be a single directory name"
  | .filePath => "file must be a relative path without '..'"
  | .unreadable path reason => s!"failed to read {path}: {reason}"
  | .other text => text

/-! ### Configuration -/

/-- What was found in place of a setting. -/
inductive Found where
  | flag (b : Bool)
  | integer (n : Int)
  /-- An integer where only one that is not negative will do. -/
  | negative (n : Int)
  | real (x : Binary64)
  | text (s : String)
  | nothing
  | list
  | table
  deriving Repr, DecidableEq

/-- What was found in words. -/
def Found.describe : Found → String
  | .flag b => s!"boolean \x60{b}\x60"
  | .integer n => s!"integer \x60{n}\x60"
  | .negative n => s!"64-bit integer \x60{n}\x60"
  | .real x => s!"floating point \x60" ++ FloatStyle.pointed.write x ++ "\x60"
  | .text s => "string " ++ Text.quote s
  | .nothing => "unit value"
  | .list => "sequence"
  | .table => "map"

/-- Why there is no configuration. -/
inductive ConfigCause where
  | fileNotFound (path : String)
  /-- The file at this path has a format that is not known. -/
  | unknownFormat (path : String)
  /-- The file at this path cannot be read as what its name says. -/
  | unreadableFile (path : String)
  | wrongType (found : Found) (expected key : String) (origin : Option String)
  | wrongLength (length : Nat) (expected key : String)
  | missingField (name : String)
  | invalid (violations : List String)
  | logFilter
  | other (text : String)
  deriving Repr, DecidableEq

/-- Where a setting comes from, in words. -/
def originText (origin : Option String) : String := (origin.map (" in " ++ ·)).getD ""

/-- A key in words. -/
def keyText (key : String) : String := s!" for key \x60{key}\x60"

/-- The cause of a failed loading in words. -/
def loadingFailed (text : String) : String := "Configuration loading failed: " ++ text

/-- The cause in words. -/
def ConfigCause.text : ConfigCause → String
  | .fileNotFound path => loadingFailed s!"configuration file {Text.quote path} not found"
  | .unknownFormat path =>
      loadingFailed
        s!"configuration file {Text.quote path} is not of a supported file format"
  | .unreadableFile path => loadingFailed s!"configuration file {Text.quote path} is not readable"
  | .wrongType found expected key origin =>
      loadingFailed
        (s!"invalid type: {found.describe}, expected {expected}" ++ keyText key ++
          originText origin)
  | .wrongLength length expected key =>
      loadingFailed (s!"invalid length {length}, expected {expected}" ++ keyText key)
  | .missingField name => loadingFailed s!"missing configuration field {Text.quote name}"
  | .invalid violations => "Validation failed: " ++ String.intercalate "; " violations
  | .logFilter => "Invalid log filter"
  | .other text => text

/-! ### All failures -/

/-- A failure. -/
inductive SecretError where
  /-- A reference, a parameter or a name has the wrong form. -/
  | invalidFormat (cause : FormatCause)
  | noSuchEngine (engine : String)
  /-- The payload could not be decoded or the wanted part of it not be found. -/
  | decryption (cause : DecryptionCause)
  | fetch (key : ObjectKey) (cause : FetchCause)
  | noSuchField (reference field : String)
  /-- There is an engine with this identifier already. -/
  | duplicateEngine (engine : String)
  | unsupported (engine operation : String)
  | config (cause : ConfigCause)
  deriving Repr, DecidableEq

namespace SecretError

/-- The failure in words. -/
def message : SecretError → String
  | .invalidFormat cause => "Invalid secret format: " ++ cause.text
  | .noSuchEngine engine => s!"Unknown secret engine identifier: {engine}"
  | .decryption cause => "Secret decryption failed: " ++ cause.text
  | .fetch key cause =>
      s!"Failed to fetch secret file (bucket: {key.bucket}, region: {key.region}, " ++
        s!"file: {key.file}): " ++ cause.text
  | .noSuchField reference field => s!"User secret {reference} has no field named '{field}'"
  | .duplicateEngine engine => s!"Secret engine '{engine}' is already registered"
  | .unsupported engine operation => s!"Secret engine '{engine}' does not support {operation}"
  | .config cause => "Configuration error: " ++ cause.text

/-- The name of the kind of failure. -/
def kind : SecretError → String
  | .invalidFormat _ => "InvalidFormat"
  | .noSuchEngine _ => "NoSuchEngine"
  | .decryption _ => "Decryption"
  | .fetch _ _ => "Fetch"
  | .noSuchField _ _ => "NoSuchField"
  | .duplicateEngine _ => "DuplicateEngine"
  | .unsupported _ _ => "UnsupportedOperation"
  | .config _ => "Config"

/-- The code by which machines know the kind of failure. -/
def code : SecretError → String
  | .invalidFormat _ => "secrets.invalid_format"
  | .noSuchEngine _ => "secrets.no_such_engine"
  | .decryption _ => "secrets.decryption_failed"
  | .fetch _ _ => "secrets.fetch_failed"
  | .noSuchField _ _ => "secrets.no_such_field"
  | .duplicateEngine _ => "secrets.duplicate_engine"
  | .unsupported _ _ => "secrets.unsupported_operation"
  | .config _ => "secrets.config"

/-- Whether the same call may succeed another time: only fetching may. -/
def isRetryable : SecretError → Bool
  | .fetch _ _ => true
  | _ => false

end SecretError

end SecretResolver
