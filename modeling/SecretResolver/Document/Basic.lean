/-
**Secret documents.**

A document is a tree of scalars, mappings, sequences and nulls; a scalar is its text, whatever type
it had where it came from.  A dotted path selects one scalar: a segment is the name of a field or,
in a sequence, an index counted from zero.

Main definitions:

* `Document`, `Document.kind`;
* `Document.extract` — the scalar at a path;
* `Document.namedTexts`, `Document.singleText` — documents that are payloads.
-/

import SecretResolver.Failure

set_option relaxedAutoImplicit false
set_option autoImplicit false

namespace SecretResolver

/-- A document. -/
inductive Document where
  | scalar (text : String)
  | mapping (fields : List (String × Document))
  | sequence (items : List Document)
  | null
  deriving Repr, Inhabited

namespace Document

/-- The kind of a document. -/
def kind : Document → NodeKind
  | .scalar _ => .scalar
  | .mapping _ => .mapping
  | .sequence _ => .sequence
  | .null => .null

/-! ### Paths -/

/-- The greatest index that can be written. -/
def maxIndex : Nat := 0xFFFFFFFFFFFFFFFF

/-- The index that a segment denotes. -/
def index? (segment : List Char) : Option Nat := (Text.readNat segment).filter (· ≤ maxIndex)

/-- The document that a segment selects; `path` is the whole path. -/
def select (path : String) (d : Document) (segment : List Char) :
    Except DecryptionCause Document :=
  let name := String.ofList segment
  match d with
  | .mapping fields =>
      match Entries.find? name fields with
      | some d => .ok d
      | none => .error (.noField name path)
  | .sequence items =>
      match index? segment with
      | none => .error (.notIndex name path)
      | some i =>
          match items[i]? with
          | some d => .ok d
          | none => .error (.outOfRange i items.length path)
  | d => .error (.notSelectable name d.kind path)

/-- The document that some segments select one after the other. -/
def walk (path : String) : Document → List (List Char) → Except DecryptionCause Document
  | d, [] => .ok d
  | d, segment :: segments =>
      match d.select path segment with
      | .error cause => .error cause
      | .ok d => walk path d segments

/-- The scalar at a path. -/
def extract (d : Document) (path : String) : Except DecryptionCause String :=
  match walk path d (Text.splitAll '.' path.toList) with
  | .error cause => .error cause
  | .ok (.scalar text) => .ok text
  | .ok d => .error (.notScalar path d.kind)

/-! ### Payloads -/

/-- The texts of fields that are all scalars. -/
def fieldTexts : List (String × Document) → Except DecryptionCause (List (String × String))
  | [] => .ok []
  | (name, .scalar text) :: fields =>
      match fieldTexts fields with
      | .error cause => .error cause
      | .ok es => .ok ((name, text) :: es)
  | (name, d) :: _ => .error (.fieldNotScalar name d.kind)

/-- The named texts of a mapping of scalars. -/
def namedTexts : Document → Except DecryptionCause (Table String)
  | .mapping fields =>
      match fieldTexts fields with
      | .error cause => .error cause
      | .ok es => .ok (.ofEntries es)
  | d => .error (.notMapping d.kind)

/-- The text of a scalar. -/
def singleText : Document → Except DecryptionCause String
  | .scalar text => .ok text
  | d => .error (.notString d.kind)

end Document

end SecretResolver
