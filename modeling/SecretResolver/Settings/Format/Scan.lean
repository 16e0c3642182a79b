/-
**Reading parts of a text.**

What the formats of configuration files have in common: texts between quotes, characters given by
their code, comments, and items with commas between them.  A `Scan` that finds nothing has met a
fault; what it is does not matter to anybody.

Main definitions:

* `Scan` — a reader of some characters;
* `Scan.hexChar`, `Scan.quoted` — characters by their code, and texts between quotes;
* `Scan.items`, `Scan.named` — items up to a closing bracket, and values with their names;
* `Scan.skip` — what stands between two symbols;
* `Scan.layer` — the settings of a text that is a single value.
-/

import SecretResolver.Number.Numeral
import SecretResolver.Settings.Layer
import SecretResolver.Text.Blank

set_option relaxedAutoImplicit false
set_option autoImplicit false

namespace SecretResolver

/-- A reader of some characters: what it has read, and the characters after it. -/
abbrev Scan (α : Type) := List Char → Option (α × List Char)

namespace Scan

/-! ### Blanks and comments -/

/-- Whether a character is a blank or ends a line. -/
def isSpace (c : Char) : Bool := Text.isBlank c || c == '\n' || c == '\r'

/-- The characters from the end of a line on. -/
def lineEnd (cs : List Char) : List Char := cs.dropWhile fun c => c != '\n'

/-- The characters after the end of a comment that is closed by a star and a slash. -/
def commentEnd : List Char → Option (List Char)
  | '*' :: '/' :: cs => some cs
  | _ :: cs => commentEnd cs
  | [] => none

/-- Passes over spaces and over comments that begin with slashes; a comment that is not closed
stays. -/
def skipSlashed : (fuel : Nat) → List Char → List Char
  | 0, cs => cs
  | fuel + 1, '/' :: '/' :: cs => skipSlashed fuel (lineEnd cs)
  | fuel + 1, '/' :: '*' :: cs =>
      match commentEnd cs with
      | some cs => skipSlashed fuel cs
      | none => '/' :: '*' :: cs
  | fuel + 1, c :: cs => if isSpace c then skipSlashed fuel cs else c :: cs
  | _ + 1, [] => []

/-- Passes over all spaces and over comments that begin with slashes. -/
def skip (cs : List Char) : List Char := skipSlashed (cs.length + 1) cs

/-! ### Characters and texts -/

/-- The character with a code. -/
def ofCode? (n : Nat) : Option Char := if n.isValidChar then some (Char.ofNat n) else none

/-- A character given by so many hexadecimal digits. -/
def hexChar (width : Nat) : Scan Char := fun cs =>
  let ds := cs.take width
  if ds.length < width then none
  else ((Numeral.digits? 16 ds).bind ofCode?).map fun c => (c, cs.drop width)

/-- The rest of a text up to a closing quote.  `escape` reads what follows a backslash. -/
def quoted (quote : Char) (escape : Scan (List Char)) (allowed : Char → Bool) :
    (fuel : Nat) → Scan (List Char)
  | 0, _ => none
  | _ + 1, [] => none
  | fuel + 1, c :: cs =>
      if c == quote then some ([], cs)
      else if c == '\\' then
        match escape cs with
        | none => none
        | some (ds, cs) => (quoted quote escape allowed fuel cs).map fun r => (ds ++ r.1, r.2)
      else if allowed c then
        (quoted quote escape allowed fuel cs).map fun r => (c :: r.1, r.2)
      else none

/-- The longest beginning of characters of a kind, which must not be empty. -/
def word (p : Char → Bool) : Scan (List Char) := fun cs =>
  match cs.takeWhile p with
  | [] => none
  | w => some (w, cs.dropWhile p)

/-! ### Items -/

/-- Items with commas between them and maybe after the last one, up to a closing bracket. -/
def items {α : Type} (skip : List Char → List Char) (item : Scan α) (closing : Char) :
    (fuel : Nat) → Scan (List α)
  | 0, _ => none
  | fuel + 1, cs =>
      match skip cs with
      | [] => none
      | c :: cs =>
          if c == closing then some ([], cs)
          else
            match item (c :: cs) with
            | none => none
            | some (x, cs) =>
                match skip cs with
                | ',' :: cs => (items skip item closing fuel cs).map fun r => (x :: r.1, r.2)
                | c :: cs => if c == closing then some ([x], cs) else none
                | [] => none

/-! ### Numbers -/

/-- Whether each underscore stands between two digits or letters. -/
def underscoresInside : (before : Bool) → List Char → Bool
  | before, '_' :: c :: cs => before && Text.isAlphanumeric c && underscoresInside true (c :: cs)
  | _, ['_'] => false
  | _, c :: cs => underscoresInside (Text.isAlphanumeric c) cs
  | _, [] => true

/-- A numeral without its underscores. -/
def withoutUnderscores (cs : List Char) : Option (List Char) :=
  if underscoresInside false cs then some (cs.filter fun c => c != '_') else none

/-- The integer of 64 bits after a sign, in the base that it says. -/
def basedInteger? (negative : Bool) (cs : List Char) : Option Int :=
  let (base, ds) : Nat × List Char :=
    match cs with
    | '0' :: 'x' :: ds => (16, ds)
    | '0' :: 'o' :: ds => (8, ds)
    | '0' :: 'b' :: ds => (2, ds)
    | ds => (10, ds)
  ((Numeral.digits? base ds).map (Numeral.signed negative)).filter Numeral.isSignedWord

/-! ### Layers -/

/-- The value after a name, behind a colon. -/
def named (value : Scan Setting) (name : String) : Scan (String × Setting) := fun cs =>
  match skip cs with
  | ':' :: cs => (value cs).map fun r => ((name, r.1), r.2)
  | _ => none

/-- The layer of a file that is one value, which must be a table.  `value` reads values that are nested
less deep than it is told. -/
def layer (value : (depth : Nat) → Scan Setting) (cs : List Char) : Option Layer :=
  match value (cs.length + 1) cs with
  | some (.table _ fields, cs) => if (skip cs).isEmpty then some fields else none
  | _ => none

end Scan

/-- The table of some pairs; of two with one name the later counts. -/
def Setting.ofPairs (origin : Option String) (pairs : List (String × Setting)) : Setting :=
  .table origin (Entries.gather pairs)

end SecretResolver
