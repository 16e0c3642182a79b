/-
**Kinds and encodings of payloads.**

A payload holds either named texts or a single one, and it is encoded in one of three formats.  The
names of kinds are compared exactly, the names of encodings in any letter case.

Main definitions:

* `PayloadKind`, `PayloadKind.ofName?`;
* `Encoding`, `Encoding.ofName?`.

Main results:

* `PayloadKind.ofName?_name`, `Encoding.ofName?_name` — each name reads back.
-/

import SecretResolver.Text.Split

set_option relaxedAutoImplicit false
set_option autoImplicit false

namespace SecretResolver

/-- What a payload holds. -/
inductive PayloadKind where
  | named
  | single
  deriving Repr, DecidableEq

namespace PayloadKind

/-- All kinds. -/
def all : List PayloadKind := [.named, .single]

/-- The name of a kind. -/
def name : PayloadKind → String
  | .named => "opaque"
  | .single => "string"

/-- The kind with a name. -/
def ofName? (s : String) : Option PayloadKind := all.find? fun k => k.name == s

theorem ofName?_name (k : PayloadKind) : ofName? k.name = some k := by
  cases k <;> decide

end PayloadKind

/-- How a payload is encoded. -/
inductive Encoding where
  | json
  | yaml
  | cbor
  deriving Repr, DecidableEq

namespace Encoding

/-- All encodings. -/
def all : List Encoding := [.json, .yaml, .cbor]

/-- The name of an encoding. -/
def name : Encoding → String
  | .json => "json"
  | .yaml => "yaml"
  | .cbor => "cbor"

/-- The encoding with a name, in any letter case. -/
def ofName? (s : String) : Option Encoding := all.find? fun e => Text.sameIgnoringCase e.name s

theorem ofName?_name (e : Encoding) : ofName? e.name = some e := by
  cases e <;> decide +kernel

end Encoding

end SecretResolver
