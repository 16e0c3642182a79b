/-
**Files of settings.**

The ending of a file's name says in which format it is written.  Where there is no file of the
given name, each known ending is tried behind it.

Main definitions:

* `FileFormat`, `FileFormat.ofName?` — formats by the endings of names;
* `FileFormat.read` — the layer that a file is;
* `SettingsFile.find` — the file that a name leads to;
* `Settings.load` — settings from a file, if one is named, and an environment.
-/

import SecretResolver.Settings.Format.Ini
import SecretResolver.Settings.Format.Json5
import SecretResolver.Settings.Format.Ron
import SecretResolver.Settings.Format.Toml
import SecretResolver.Settings.Format.Tree
import SecretResolver.Settings.Layered
import SecretResolver.Store.FileTree

set_option relaxedAutoImplicit false
set_option autoImplicit false

namespace SecretResolver

/-! ### Formats -/

/-- The formats of files of settings. -/
inductive FileFormat where
  | toml
  | json
  | yaml
  | ini
  | ron
  | json5
  deriving Repr, DecidableEq

namespace FileFormat

/-- The endings of names, with the formats that they stand for. -/
def endings : List (String × FileFormat) :=
  [("toml", .toml), ("json", .json), ("yaml", .yaml), ("yml", .yaml), ("ini", .ini),
    ("ron", .ron), ("json5", .json5)]

/-- The last name of a path, if the path ends in one. -/
def lastName? (path : String) : Option String :=
  match (Path.components path).getLast? with
  | some (.normal name) => some name
  | _ => none

/-- What stands behind the last point of a name, unless there is nothing before it. -/
def ending (name : String) : String :=
  let pieces := Text.splitAll '.' name.toList
  match pieces.reverse with
  | last :: before :: more => if before.isEmpty && more.isEmpty then "" else String.ofList last
  | _ => ""

/-- The format of the file at a path. -/
def ofName? (path : String) : Option FileFormat :=
  (lastName? path).bind fun name => Entries.find? (ending name) endings

/-- The layer that a file in a format is. -/
def read (origin : Option String) (f : FileFormat) (cs : List Char) : Option Layer :=
  match f with
  | .toml => Toml.read origin cs
  | .json => layerOfJson origin cs
  | .yaml => layerOfYaml origin cs
  | .ini => Ini.read origin cs
  | .ron => Ron.read origin cs
  | .json5 => Json5.read origin cs

end FileFormat

/-! ### Files -/

/-- How files are read. -/
abbrev ReadFile := String → Except FileFault Bytes

namespace SettingsFile

/-- The paths that a name may lead to: itself, and itself with each known ending. -/
def candidates (name : String) : List String :=
  name :: (if (FileFormat.lastName? name).isSome then
    FileFormat.endings.map fun e => s!"{name}.{e.1}" else [])

/-- Whether something can be read or at least is there to be read. -/
def isFile : Except FileFault Bytes → Bool
  | .ok _ => true
  | .error (.other _) => true
  | _ => false

/-- The path that a name leads to. -/
def find (read : ReadFile) (name : String) : Option String :=
  (candidates name).find? fun path => isFile (read path)

/-- The text of some bytes; what is no character is replaced, byte by byte. -/
def lossyText : (fuel : Nat) → Bytes → List Char
  | 0, _ => []
  | fuel + 1, bs =>
      match Utf8.decode bs with
      | (cs, []) => cs
      | (cs, _ :: rest) => cs ++ Char.ofNat 0xFFFD :: lossyText fuel rest

/-- The text of a file, without a mark of the order of bytes. -/
def textOf (bs : Bytes) : List Char :=
  let bs :=
    match bs with
    | 0xEF :: 0xBB :: 0xBF :: rest => rest
    | bs => bs
  lossyText (bs.length + 1) bs

/-- A component of a path as it is written. -/
def componentText : Path.Component → String
  | .root => ""
  | .here => "."
  | .above => ".."
  | .normal name => name

/-- A path without what changes nothing in it. -/
def tidyPath (path : String) : String :=
  let parts := (Path.components path).filter fun c => c ≠ .here
  String.intercalate "/" (parts.map componentText)

/-- The layer of the file that a name leads to. -/
def layer (read : ReadFile) (name : String) : Except ConfigCause Layer :=
  match find read name with
  | none => .error (.fileNotFound name)
  | some path =>
      match FileFormat.ofName? path, read path with
      | none, _ => .error (.unknownFormat path)
      | _, .error _ => .error (.unreadableFile path)
      | some format, .ok bs =>
          match format.read (some (tidyPath path)) (textOf bs) with
          | some l => .ok l
          | none => .error (.unreadableFile path)

end SettingsFile

/-- Settings from the file that a name leads to, if there is a name, and an environment. -/
def Settings.load (read : ReadFile) (name : Option String) (env : Environment) :
    Except SecretError Settings :=
  match name with
  | none => Settings.ofLayers [] env
  | some name =>
      match SettingsFile.layer read name with
      | .error cause => .error (.config cause)
      | .ok file => Settings.ofLayers file env

end SecretResolver
