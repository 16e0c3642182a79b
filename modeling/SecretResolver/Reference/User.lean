/-
**User secret references.**

`secret://<engine>?<name>=<value>&…&<name>=<value>` names an engine by an identifier that begins
with a letter or digit and goes on with letters, digits, `-`, `_` and `.`.  Values are taken as
they stand, nothing is unescaped, and no part may hold a line feed.  The parameter `k` names the
field that is wanted.

Main definitions:

* `UserRef`, `UserRef.parse`, `UserRef.text`, `UserRef.field?`;
* `UserRef.identity` — what two references have in common that differ in the order of parameters
  only; it is what caches and ledgers know a reference by.
-/

import SecretResolver.Reference.Encrypted

set_option relaxedAutoImplicit false
set_option autoImplicit false

namespace SecretResolver

/-- What every user secret reference begins with. -/
def secretScheme : String := "secret://"

/-- Why a text is no user secret reference. -/
inductive UserFault where
  /-- It does not have the form of an engine and a query. -/
  | shape
  | parameter (fault : Parameters.Fault)
  deriving Repr, DecidableEq

/-- The reason in words. -/
def UserFault.message (fault : UserFault) : String :=
  "Invalid user secret URI, " ++
    match fault with
    | .shape => s!"expected '{secretScheme}<engine>?<key>=<value>'"
    | .parameter fault => fault.detail "parameters must be written as '<key>=<value>'"

/-- An engine with parameters, in the order in which they are written. -/
structure UserRef where
  engine : String
  parameters : Table String
  deriving Repr, DecidableEq

namespace UserRef

/-- Parameters stand between `&` and have the form `name=value`. -/
def grammar : Parameters.Grammar := ⟨'&', '=', []⟩

/-- The characters that may follow the first one of an engine. -/
def isEngineChar (c : Char) : Bool := Text.isAlphanumeric c || c == '-' || c == '_' || c == '.'

/-- Whether a text names an engine. -/
def isEngine : List Char → Bool
  | [] => false
  | c :: cs => Text.isAlphanumeric c && cs.all isEngineChar

/-- The engine and the query around the first `?`. -/
def splitBody (cs : List Char) : Option (List Char × List Char) :=
  match Text.splitFirst '?' cs with
  | none => none
  | some (engine, query) =>
      if isEngine engine && !query.isEmpty && !query.contains '\n' then some (engine, query)
      else none

/-- Reads a user secret reference. -/
def parse (text : String) : Except UserFault UserRef :=
  match (Text.dropStart secretScheme.toList text.toList).bind splitBody with
  | none => .error .shape
  | some (engine, query) =>
      match Parameters.read grammar (Text.splitAll grammar.separator query) with
      | .error fault => .error (.parameter fault)
      | .ok ps => .ok ⟨String.ofList engine, ps⟩

/-- Whether a text is a user secret reference. -/
def isReference (text : String) : Bool :=
  (Text.dropStart secretScheme.toList text.toList).isSome && (parse text).toOption.isSome

/-- The query of a reference: a `?` before the first parameter, separators between the others. -/
def query (r : UserRef) : List Char :=
  match Parameters.write grammar r.parameters with
  | [] => []
  | segments => '?' :: Text.joinWith grammar.separator segments

/-- The text of a reference. -/
def text (r : UserRef) : String :=
  String.ofList (secretScheme.toList ++ r.engine.toList ++ r.query)

/-- The scheme and the engine alone, for messages that must not show parameters. -/
def origin (r : UserRef) : String := secretScheme ++ r.engine

/-- The value of a parameter. -/
def get? (r : UserRef) (name : String) : Option String := r.parameters.get? name

/-- The field of the decrypted secret that is wanted, if one is named. -/
def field? (r : UserRef) : Option String := r.get? fieldParameter

/-- Equality up to the order of parameters. -/
def sameAs (r s : UserRef) : Bool := r.engine == s.engine && r.parameters.sameAs s.parameters

/-! ### Identity -/

/-- An engine with its parameters in the order of their names. -/
structure Identity where
  engine : String
  parameters : List (String × String)
  deriving Repr, DecidableEq

/-- What a reference is known by, whatever the order of its parameters. -/
def identity (r : UserRef) : Identity :=
  ⟨r.engine, r.parameters.entries.mergeSort fun a b => decide (a.1 ≤ b.1)⟩

end UserRef

end SecretResolver
