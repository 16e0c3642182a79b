/-
**Settings from layers.**

The defaults make the lowest layer, a file may lie over it, and the environment lies on top.  What
comes out must hold all settings and pass the rules.

Main definitions:

* `Environment`, `Environment.layer` — the layer of the variables with our name in front;
* `Settings.layer`, `Settings.ofLayer` — settings as a layer, and the settings that a layer holds;
* `Settings.ofLayers` — the settings of a file and an environment.
-/

import SecretResolver.Settings.Basic
import SecretResolver.Settings.Layer

set_option relaxedAutoImplicit false
set_option autoImplicit false

namespace SecretResolver

/-! ### The environment -/

/-- The variables of an environment. -/
abbrev Environment := List (String × String)

namespace Environment

/-- What the names of our variables begin with, in small letters. -/
def start : List Char := "secrets__".toList

/-- What variables come from. -/
def origin : String := "the environment"

/-- A name with a point in place of each two underscores. -/
def points : List Char → List Char
  | '_' :: '_' :: cs => '.' :: points cs
  | c :: cs => c :: points cs
  | [] => []

/-- The key that a variable gives a value to, if it is one of ours. -/
def key? (name : String) : Option String :=
  (Text.dropStart start (Text.lowerAscii name).toList).map fun cs => String.ofList (points cs)

/-- What the text of a variable is: a truth value, an integer or a double if it can be one. -/
def guess (s : String) : Leaf :=
  if Text.lowerAscii s = "true" then .flag true
  else if Text.lowerAscii s = "false" then .flag false
  else
    match Numeral.integer? s with
    | some n => .integer n
    | none =>
        match Numeral.real? s with
        | some x => .real x
        | none => .text s

/-- The layer of our variables. -/
def layer (env : Environment) : Layer :=
  env.filterMap fun v => (key? v.1).map fun key => (key, .leaf (some origin) (guess v.2))

end Environment

/-! ### Sections -/

/-- The setting at a place of a section: under its name, or at its index if the section is a
list. -/
structure Place where
  name : String
  index : Nat
  deriving Repr, DecidableEq

/-- The complaint that a section is no section. -/
def notSection {α : Type} (v : Setting) (type key : String) : Except ConfigCause α :=
  .error (.wrongType v.found s!"struct {type}" key none)

/-- Reads the setting at a place of a section of so many settings. -/
def readAt {α : Type} (v : Setting) (type key : String) (size : Nat) (p : Place)
    (read : String → Setting → Except ConfigCause α) : Except ConfigCause α :=
  match v with
  | .table _ fields =>
      match Entries.find? p.name fields with
      | some w => read s!"{key}.{p.name}" w
      | none => .error (.missingField s!"{key}.{p.name}")
  | .list _ items =>
      match items[p.index]? with
      | some w => read s!"{key}[{p.index}]" w
      | none => .error (.wrongLength items.length s!"struct {type} with {size} elements" key)
  | v => notSection v type key

/-- The settings of a cache in a section. -/
def CacheSettings.ofSection (key : String) (v : Setting) : Except ConfigCause CacheSettings := do
  let readHere := fun p => readAt v "CacheConfig" key 3 p Setting.natural
  let maximumSize ← readHere ⟨"maximum_size", 0⟩
  let afterWrite ← readHere ⟨"expire_after_write_seconds", 1⟩
  let afterAccess ← readHere ⟨"expire_after_access_seconds", 2⟩
  return ⟨maximumSize, afterWrite, afterAccess⟩

/-- The settings of the log in a section. -/
def LogSettings.ofSection (key : String) (v : Setting) : Except ConfigCause LogSettings := do
  let level ← readAt v "LoggingConfig" key 2 ⟨"level", 0⟩ Setting.text
  let json ← readAt v "LoggingConfig" key 2 ⟨"json", 1⟩ Setting.flag
  return ⟨level, json⟩

/-! ### All settings -/

/-- The section that the settings of a cache make. -/
def CacheSettings.section_ (s : CacheSettings) : Setting :=
  .table none [
    ("maximum_size", .leaf none (.integer s.maximumSize)),
    ("expire_after_write_seconds", .leaf none (.integer s.afterWriteSeconds)),
    ("expire_after_access_seconds", .leaf none (.integer s.afterAccessSeconds))]

/-- The section that the settings of the log make. -/
def LogSettings.section_ (s : LogSettings) : Setting :=
  .table none [("level", .leaf none (.text s.level)), ("json", .leaf none (.flag s.json))]

namespace Settings

/-- Settings as a layer. -/
def layer (s : Settings) : Layer :=
  [("cache", s.cache.section_), ("user_secrets", s.userSecrets.section_),
    ("logging", s.logging.section_)]

/-- A section of a layer. -/
def sectionOf (name : String) (l : Layer) : Except ConfigCause Setting :=
  match Entries.find? name l with
  | some v => .ok v
  | none => .error (.missingField name)

/-- The settings that a layer holds. -/
def ofLayer (l : Layer) : Except ConfigCause Settings := do
  let cache ← CacheSettings.ofSection "cache" (← sectionOf "cache" l)
  let userSecrets ← CacheSettings.ofSection "user_secrets" (← sectionOf "user_secrets" l)
  let logging ← LogSettings.ofSection "logging" (← sectionOf "logging" l)
  return ⟨cache, userSecrets, logging⟩

/-- The settings of a file and an environment over the defaults. -/
def ofLayers (file : Layer) (env : Environment) : Except SecretError Settings :=
  match ofLayer (Layer.onto env.layer (Layer.onto file standard.layer)) with
  | .error cause => .error (.config cause)
  | .ok s => s.check

end Settings

end SecretResolver
