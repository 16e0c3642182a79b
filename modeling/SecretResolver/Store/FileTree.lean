/-
**File trees.**

A path is a text; its components are what stands between slashes, empty ones and single dots in
its middle left out.  A tree knows the contents of its files; its directories are those that the
files lie in and some more.

Main definitions:

* `Path.components`, `Path.join`, `Path.isContained`;
* `FileFault` — why a file cannot be read;
* `FileTree`, `FileTree.read`.
-/

import SecretResolver.Text.Split
import SecretResolver.Text.Utf8

set_option relaxedAutoImplicit false
set_option autoImplicit false

namespace SecretResolver

/-! ### Paths -/

namespace Path

/-- A component of a path. -/
inductive Component where
  /-- The root of all files, at the beginning of a path. -/
  | root
  /-- The directory itself, at the beginning of a path. -/
  | here
  | above
  | normal (name : String)
  deriving Repr, DecidableEq

/-- The component that a piece between slashes makes, if it makes one. -/
def component? (piece : List Char) : Option Component :=
  if piece.isEmpty || piece = ['.'] then none
  else if piece = ['.', '.'] then some .above
  else some (.normal (String.ofList piece))

/-- The components of the pieces of a path. -/
def ofPieces : List (List Char) → List Component
  | [] => []
  | first :: rest =>
      (if first = ['.'] then [.here] else (component? first).toList) ++ rest.filterMap component?

/-- The components of a path. -/
def components (path : String) : List Component :=
  let cs := path.toList
  (if cs.head? = some '/' then [.root] else []) ++ ofPieces (Text.splitAll '/' cs)

/-- Whether a component is a name. -/
def Component.isNormal : Component → Bool
  | .normal _ => true
  | _ => false

/-- Whether a path leads down from where it starts: it has components and all are names. -/
def isContained (path : String) : Bool :=
  !(components path).isEmpty && (components path).all Component.isNormal

/-- Whether a path starts at the root of all files. -/
def isAbsolute (path : String) : Bool := path.toList.head? = some '/'

/-- A path below another one. -/
def join (base path : String) : String :=
  if isAbsolute path || base.isEmpty then path
  else if base.toList.getLast? = some '/' then base ++ path
  else base ++ "/" ++ path

end Path

/-! ### Reading -/

/-- Why a file cannot be read. -/
inductive FileFault where
  | notFound
  | notDirectory
  | isDirectory
  | nameTooLong
  | nulByte
  | other (text : String)
  deriving Repr, DecidableEq

/-- The reason in words. -/
def FileFault.text : FileFault → String
  | .notFound => "No such file or directory (os error 2)"
  | .notDirectory => "Not a directory (os error 20)"
  | .isDirectory => "Is a directory (os error 21)"
  | .nameTooLong => "File name too long (os error 36)"
  | .nulByte => "file name contained an unexpected NUL byte"
  | .other text => text

/-- Files with their contents, and further directories, by the names on the way to them. -/
structure FileTree where
  files : List (List String × Bytes)
  directories : List (List String)
  deriving Repr, DecidableEq

namespace FileTree

/-- The names on the way to a path, for paths that lead down. -/
def names (path : String) : List String :=
  (Path.components path).filterMap fun
    | .normal name => some name
    | _ => none

/-- The tree of some files and directories given by their paths. -/
def ofPaths (files : List (String × Bytes)) (directories : List String) : FileTree :=
  ⟨files.map fun f => (names f.1, f.2), directories.map names⟩

/-- The contents of the file at the end of a way; of two files the later counts. -/
def file? (t : FileTree) (way : List String) : Option Bytes :=
  (t.files.reverse.find? fun f => f.1 == way).map Prod.snd

/-- Whether there is a directory at the end of a way. -/
def isDirectory (t : FileTree) (way : List String) : Bool :=
  way.isEmpty || (t.files.any fun f => way.isPrefixOf f.1 && way.length < f.1.length) ||
    t.directories.any fun d => way.isPrefixOf d

/-- The longest name, in bytes. -/
def maxName : Nat := 255

/-- The longest path, in bytes. -/
def maxPath : Nat := 4095

/-- Follows the pieces of a path from the end of a way. -/
def follow (t : FileTree) (way : List String) : List (List Char) → Except FileFault Bytes
  | [] =>
      match t.file? way with
      | some contents => .ok contents
      | none => .error .isDirectory
  | piece :: pieces =>
      if piece.isEmpty && !pieces.isEmpty then follow t way pieces
      else if !t.isDirectory way then .error .notDirectory
      else if piece.isEmpty || piece = ['.'] then follow t way pieces
      else if piece = ['.', '.'] then
        if way.isEmpty then .error .notFound else follow t way.dropLast pieces
      else
        let name := String.ofList piece
        if maxName < name.utf8ByteSize then .error .nameTooLong
        else
          let way := way ++ [name]
          if (t.file? way).isSome || t.isDirectory way then follow t way pieces
          else .error .notFound

/-- Reads the file at a path, relative to the top of the tree. -/
def read (t : FileTree) (path : String) : Except FileFault Bytes :=
  let cs := path.toList
  if cs.contains '\x00' then .error .nulByte
  else if path.isEmpty || Path.isAbsolute path then .error .notFound
  else if maxPath < path.utf8ByteSize then .error .nameTooLong
  else follow t [] (Text.splitAll '/' cs)

end FileTree

end SecretResolver
