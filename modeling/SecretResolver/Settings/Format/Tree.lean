/-
**JSON and YAML files of settings.**

The values of these formats as settings.  Scalars without quotes are resolved by simpler rules than
elsewhere, and integers beyond 64 bits become doubles.

Main definitions:

* `Setting.ofJson`, `Setting.ofYaml?` — values as settings;
* `settingSchema` — how the scalars of a YAML file are resolved;
* `layerOfJson`, `layerOfYaml` — the layer that a file is.
-/

import SecretResolver.Json.Reader
import SecretResolver.Settings.Format.Scan
import SecretResolver.Yaml.Node

set_option relaxedAutoImplicit false
set_option autoImplicit false

namespace SecretResolver

/-! ### JSON -/

mutual

/-- A JSON value as a setting. -/
def Setting.ofJson (origin : Option String) : Json.Value → Setting
  | .null => .leaf origin .nothing
  | .flag b => .leaf origin (.flag b)
  | .number (.integer n) =>
      .leaf origin (if Numeral.isSignedWord n then .integer n else .real (Binary64.ofNat n.toNat))
  | .number (.real x) => .leaf origin (.real x)
  | .text s => .leaf origin (.text s)
  | .array items => .list origin (Setting.ofJsonItems origin items)
  | .object members => .ofPairs origin (Setting.ofJsonMembers origin members)

/-- JSON values as settings. -/
def Setting.ofJsonItems (origin : Option String) : List Json.Value → List Setting
  | [] => []
  | v :: vs => Setting.ofJson origin v :: Setting.ofJsonItems origin vs

/-- The members of a JSON object as settings. -/
def Setting.ofJsonMembers (origin : Option String) :
    List (String × Json.Value) → List (String × Setting)
  | [] => []
  | (n, v) :: vs => (n, Setting.ofJson origin v) :: Setting.ofJsonMembers origin vs

end

/-! ### YAML -/

/-- What a plain YAML scalar is in a file of settings: only small words stand for truth values and
for nothing, zeros may lead a number, and an integer beyond 64 bits is a double.  A special double
is a fault. -/
def plainSetting? (s : String) : Option Yaml.Scalar :=
  let cs := s.toList
  let based? : Option Int :=
    match cs with
    | '0' :: 'x' :: _ => Scan.basedInteger? false cs
    | '0' :: 'o' :: _ => Scan.basedInteger? false cs
    | _ => Numeral.integer? s
  match based? with
  | some n => some (.integer n)
  | none =>
      if s = "" || s = "~" || s = "null" then some .null
      else if s = "true" then some (.flag true)
      else if s = "false" then some (.flag false)
      else if cs.any Text.isDigit then
        some (((Numeral.real? s).map Yaml.Scalar.real).getD (.text s))
      else if (Yaml.real? s).isSome then none
      else some (.text s)

/-- What a YAML scalar is in a file of settings. -/
def settingSchema : Yaml.Schema := fun tag text style =>
  let s := String.ofList text
  if style ≠ .plain then some (.text s)
  else
    match tag with
    | none => plainSetting? s
    | some _ =>
        match Yaml.coreType? tag with
        | none => some (.text s)
        | some core => some ((Yaml.coreScalar? s core).getD .null)

/-- A YAML scalar as a key. -/
def Yaml.Scalar.key? : Yaml.Scalar → Option String
  | .text s => some s
  | .integer n => some (toString n)
  | .flag b => some (toString b)
  | .real x => some (FloatStyle.plain.write x)
  | .null => none

/-- A YAML scalar as a value. -/
def Leaf.ofYaml : Yaml.Scalar → Leaf
  | .null => .nothing
  | .flag b => .flag b
  | .integer n => .integer n
  | .real x => .real x
  | .text s => .text s

/-- A YAML node as a key. -/
def Yaml.Node.key? : Yaml.Node → Option String
  | .scalar s => s.key?
  | .tagged _ n => n.key?
  | _ => none

mutual

/-- A YAML node as a setting, if all its keys are texts, numbers or truth values. -/
def Setting.ofYaml? (origin : Option String) : Yaml.Node → Option Setting
  | .scalar s => some (.leaf origin (.ofYaml s))
  | .sequence items => (Setting.ofYamlItems? origin items).map (.list origin)
  | .mapping entries => (Setting.ofYamlEntries? origin entries).map (.ofPairs origin)
  | .tagged _ n => Setting.ofYaml? origin n

/-- YAML nodes as settings. -/
def Setting.ofYamlItems? (origin : Option String) : List Yaml.Node → Option (List Setting)
  | [] => some []
  | n :: ns =>
      match Setting.ofYaml? origin n, Setting.ofYamlItems? origin ns with
      | some v, some vs => some (v :: vs)
      | _, _ => none

/-- The entries of a YAML mapping as settings. -/
def Setting.ofYamlEntries? (origin : Option String) :
    List (Yaml.Node × Yaml.Node) → Option (List (String × Setting))
  | [] => some []
  | (k, n) :: es =>
      match k.key?, Setting.ofYaml? origin n, Setting.ofYamlEntries? origin es with
      | some key, some v, some vs => some ((key, v) :: vs)
      | _, _, _ => none

end

/-! ### Layers -/

/-- The fields of a table. -/
def Setting.fields? : Setting → Option Layer
  | .table _ fields => some fields
  | _ => none

/-- The layer that a JSON text is. -/
def layerOfJson (origin : Option String) (cs : List Char) : Option Layer :=
  match Json.read (Utf8.encode cs) with
  | .ok v => (Setting.ofJson origin v).fields?
  | .error _ => none

/-- The layer that a YAML text is; one without a document gives nothing. -/
def layerOfYaml (origin : Option String) (cs : List Char) : Option Layer :=
  let stream := Yaml.events cs
  match Yaml.Node.ofEvents settingSchema stream with
  | .ok n => if stream.present then (Setting.ofYaml? origin n).bind Setting.fields? else some []
  | .error _ => none

end SecretResolver
