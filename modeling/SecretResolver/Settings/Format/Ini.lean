/-
**INI files.**

A line gives a text to a name, and a name in square brackets opens a section.  Comments take whole
lines.  A backslash escapes the character after it; a value may be quoted in whole or in part.

Main definitions:

* `Ini.Item` — what stands in a file;
* `Ini.read` — the layer that a file is.
-/

import SecretResolver.Settings.Format.Scan
import SecretResolver.Text.Blank

set_option relaxedAutoImplicit false
set_option autoImplicit false

namespace SecretResolver

namespace Ini

/-- What stands in a file. -/
inductive Item where
  | header (name : String)
  | pair (name value : String)
  deriving Repr, DecidableEq

/-- The character that an escape stands for, after its backslash. -/
def escape : Scan (List Char)
  | 'x' :: cs => (Scan.hexChar 4 cs).map fun r => ([r.1], r.2)
  | '0' :: cs => some (['\x00'], cs)
  | 'a' :: cs => some (['\x07'], cs)
  | 'b' :: cs => some (['\x08'], cs)
  | 't' :: cs => some (['\t'], cs)
  | 'r' :: cs => some (['\r'], cs)
  | 'n' :: cs => some (['\n'], cs)
  | '\n' :: cs => some ([], cs)
  | c :: cs => some ([c], cs)
  | [] => none

/-- The characters up to one that ends them, which stays; `open_` says that the text may end. -/
def upTo (stops : Char → Bool) (open_ : Bool) : (fuel : Nat) → Scan (List Char)
  | 0, _ => none
  | _ + 1, [] => if open_ then some ([], []) else none
  | fuel + 1, c :: cs =>
      if stops c then some ([], c :: cs)
      else if c == '\\' then
        match escape cs with
        | none => none
        | some (ds, cs) => (upTo stops open_ fuel cs).map fun r => (ds ++ r.1, r.2)
      else (upTo stops open_ fuel cs).map fun r => (c :: r.1, r.2)

/-- Whether a character ends a line. -/
def isLineEnd (c : Char) : Bool := c == '\n' || c == '\r'

/-- The value after a separator and blanks; `first` says that nothing of it has been read. -/
def value (first : Bool) : (fuel : Nat) → Scan (List Char)
  | 0, _ => none
  | _ + 1, [] => some ([], [])
  | fuel + 1, c :: cs =>
      if c == '"' || c == '\x27' then
        match upTo (· == c) false fuel cs with
        | none => none
        | some (s, rest) => (value false fuel (rest.drop 1)).map fun r => (s ++ r.1, r.2)
      else
        (upTo isLineEnd true (fuel + 1) (c :: cs)).map fun r =>
          (if first then Text.trim r.1 else Text.trimEnd r.1, r.2)

/-- The item that begins with a character. -/
def item (fuel : Nat) : Scan Item
  | '[' :: cs =>
      (upTo (· == ']') false fuel cs).map fun r =>
        (.header (String.ofList (Text.trim r.1)), r.2.drop 1)
  | cs =>
      match upTo (fun c => c == '=' || c == ':') false fuel cs with
      | none => none
      | some (name, rest) =>
          if (Text.trim name).isEmpty then none
          else
            (value true fuel ((rest.drop 1).dropWhile Text.isBlank)).map fun r =>
              (.pair (String.ofList (Text.trim name)) (String.ofList r.1), r.2)

/-- All items; `fresh` says that a line has just begun. -/
def items (fresh : Bool) : (fuel : Nat) → List Char → Option (List Item)
  | 0, _ => none
  | _ + 1, [] => some []
  | fuel + 1, c :: cs =>
      if c == '\n' then items true fuel cs
      else if Scan.isSpace c then items false fuel cs
      else if c == ';' || c == '#' then
        if fresh then items false fuel (Scan.lineEnd cs) else none
      else
        match item (cs.length + 2) (c :: cs) with
        | none => none
        | some (i, cs) => (items false fuel cs).map (i :: ·)

/-- A value of a file. -/
def leaf (origin : Option String) (s : String) : Setting := .leaf origin (.text s)

/-- The layer of some items; `here` is the section that they stand in.  A section that comes again
takes the place of the earlier one. -/
def layerOf (origin : Option String) : (here : Option String) → List Item → Layer → Layer
  | _, [], l => l
  | _, .header name :: is, l =>
      layerOf origin (some name) is (Entries.put name (.table origin []) l)
  | none, .pair name v :: is, l => layerOf origin none is (Entries.put name (leaf origin v) l)
  | some here, .pair name v :: is, l =>
      let old := (Entries.find? here l).getD (.table origin [])
      let new := Entries.put name (leaf origin v) old.fields
      layerOf origin (some here) is (Entries.put here (.table origin new) l)

/-- The layer that a file is. -/
def read (origin : Option String) (cs : List Char) : Option Layer :=
  (items true (cs.length + 1) cs).map fun is => layerOf origin none is []

end Ini

end SecretResolver
