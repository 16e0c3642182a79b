/-
**JSON5 files.**

JSON with comments, names without quotes, single quotes, commas at the end, and more numerals.

Main definitions:

* `Json5.value` — a value;
* `Json5.read` — the layer that a file is.
-/

import SecretResolver.Settings.Format.Scan

set_option relaxedAutoImplicit false
set_option autoImplicit false

namespace SecretResolver

namespace Json5

/-! ### Scalars -/

/-- The character that an escape stands for, after its backslash. -/
def escape : Scan (List Char)
  | 'u' :: cs => (Scan.hexChar 4 cs).map fun r => ([r.1], r.2)
  | 'x' :: cs => (Scan.hexChar 2 cs).map fun r => ([r.1], r.2)
  | 'b' :: cs => some (['\x08'], cs)
  | 'f' :: cs => some (['\x0c'], cs)
  | 'n' :: cs => some (['\n'], cs)
  | 'r' :: cs => some (['\r'], cs)
  | 't' :: cs => some (['\t'], cs)
  | 'v' :: cs => some (['\x0b'], cs)
  | '0' :: cs => some (['\x00'], cs)
  | '\r' :: '\n' :: cs => some ([], cs)
  | '\n' :: cs => some ([], cs)
  | c :: cs => some ([c], cs)
  | [] => none

/-- A text after its opening quote. -/
def text (quote : Char) : Scan String := fun cs =>
  (Scan.quoted quote escape (fun c => c != '\n' && c != '\r') (cs.length + 1) cs).map fun r =>
    (String.ofList r.1, r.2)

/-- Whether a character may stand in a name without quotes. -/
def isNameChar (c : Char) : Bool := Text.isAlphanumeric c || c == '_' || c == '$' || 0x80 ≤ c.toNat

/-- A name, in quotes or not. -/
def name : Scan String
  | '"' :: cs => text '"' cs
  | '\x27' :: cs => text '\x27' cs
  | c :: cs =>
      if Text.isDigit c then none
      else (Scan.word isNameChar (c :: cs)).map fun r => (String.ofList r.1, r.2)
  | [] => none

/-- Whether a character may stand in a numeral. -/
def isNumeralChar (c : Char) : Bool := Text.isAlphanumeric c || c == '.' || c == '+' || c == '-'

/-- What a numeral after its sign denotes. -/
def number? (negative : Bool) (cs : List Char) : Option Leaf :=
  if cs = "Infinity".toList then some (.real (.infinite negative))
  else if cs = "NaN".toList then some (.real .nan)
  else
    match cs with
    | '0' :: 'x' :: ds => (Scan.basedInteger? negative ('0' :: 'x' :: ds)).map .integer
    | '0' :: 'X' :: ds => (Scan.basedInteger? negative ('0' :: 'x' :: ds)).map .integer
    | '0' :: c :: ds =>
        if Text.isDigit c then none
        else (Numeral.decimal? ('0' :: c :: ds)).map fun d =>
          .real (Binary64.ofDecimal negative d.1 d.2)
    | cs =>
        if Text.isDigits cs then (Scan.basedInteger? negative cs).map .integer
        else (Numeral.decimal? cs).map fun d => .real (Binary64.ofDecimal negative d.1 d.2)

/-- What a word or a numeral denotes. -/
def leaf? (cs : List Char) : Option Leaf :=
  match String.ofList cs with
  | "null" => some .nothing
  | "true" => some (.flag true)
  | "false" => some (.flag false)
  | _ =>
      let (negative, ds) := Numeral.sign cs
      number? negative ds

/-! ### Values -/

/-- A name, a colon and a value. -/
def pair (value : Scan Setting) : Scan (String × Setting) := fun cs =>
  (name cs).bind fun r => Scan.named value r.1 r.2

/-- A value, nested less than `depth` deep. -/
def value (origin : Option String) : (depth : Nat) → Scan Setting
  | 0, _ => none
  | depth + 1, cs =>
      match Scan.skip cs with
      | '\x7b' :: cs =>
          (Scan.items Scan.skip (pair (value origin depth)) '\x7d' (cs.length + 1) cs).map fun r =>
            (.ofPairs origin r.1, r.2)
      | '[' :: cs =>
          (Scan.items Scan.skip (value origin depth) ']' (cs.length + 1) cs).map fun r =>
            (.list origin r.1, r.2)
      | '"' :: cs => (text '"' cs).map fun r => (.leaf origin (.text r.1), r.2)
      | '\x27' :: cs => (text '\x27' cs).map fun r => (.leaf origin (.text r.1), r.2)
      | cs =>
          match Scan.word isNumeralChar cs with
          | none => none
          | some (w, cs) => (leaf? w).map fun v => (.leaf origin v, cs)

/-- The layer that a file is. -/
def read (origin : Option String) : List Char → Option Layer := Scan.layer (value origin)

end Json5

end SecretResolver
