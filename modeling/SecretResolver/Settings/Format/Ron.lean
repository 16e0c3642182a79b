/-
**RON files.**

Records in parentheses with a colon after each name, tables with any texts as names, lists, and
scalars.  A record may have a name of its own in front; a value may be wrapped as being there.

Main definitions:

* `Ron.value` — a value;
* `Ron.read` — the layer that a file is.
-/

import SecretResolver.Settings.Format.Scan

set_option relaxedAutoImplicit false
set_option autoImplicit false

namespace SecretResolver

namespace Ron

/-! ### Scalars -/

/-- The character that an escape stands for, after its backslash. -/
def escape : Scan (List Char)
  | 'u' :: '\x7b' :: cs =>
      let ds := cs.takeWhile fun c => c != '\x7d'
      match cs.dropWhile fun c => c != '\x7d' with
      | [] => none
      | _ :: rest => ((Numeral.digits? 16 ds).bind Scan.ofCode?).map fun c => ([c], rest)
  | 'x' :: cs => (Scan.hexChar 2 cs).map fun r => ([r.1], r.2)
  | 'n' :: cs => some (['\n'], cs)
  | 'r' :: cs => some (['\r'], cs)
  | 't' :: cs => some (['\t'], cs)
  | '0' :: cs => some (['\x00'], cs)
  | '\\' :: cs => some (['\\'], cs)
  | '"' :: cs => some (['"'], cs)
  | '\x27' :: cs => some (['\x27'], cs)
  | _ => none

/-- A text after its opening quote. -/
def text : Scan String := fun cs =>
  (Scan.quoted '"' escape (fun _ => true) (cs.length + 1) cs).map fun r =>
    (String.ofList r.1, r.2)

/-- A character after its opening quote. -/
def character : Scan String := fun cs =>
  match Scan.quoted '\x27' escape (fun _ => true) (cs.length + 1) cs with
  | some ([c], rest) => some (String.ofList [c], rest)
  | _ => none

/-- A text without escapes, up to a quote with so many number signs after it. -/
def rawText (signs : List Char) : List Char → Option (String × List Char)
  | [] => none
  | c :: cs =>
      if c == '"' then
        match Text.dropStart signs cs with
        | some rest => some ("", rest)
        | none => (rawText signs cs).map fun r => (String.ofList (c :: r.1.toList), r.2)
      else (rawText signs cs).map fun r => (String.ofList (c :: r.1.toList), r.2)

/-- Whether a character may stand in a word or a numeral. -/
def isWordChar (c : Char) : Bool :=
  Text.isAlphanumeric c || c == '_' || c == '.' || c == '+' || c == '-'

/-- What a numeral after its sign denotes. -/
def number? (negative : Bool) (cs : List Char) : Option Leaf :=
  if cs = "inf".toList then some (.real (.infinite negative))
  else if cs = "NaN".toList then some (.real .nan)
  else
    match Scan.basedInteger? negative cs with
    | some n => some (.integer n)
    | none => (Numeral.decimal? cs).map fun d => .real (Binary64.ofDecimal negative d.1 d.2)

/-- What a word or a numeral denotes. -/
def leaf? (cs : List Char) : Option Leaf :=
  match String.ofList cs with
  | "None" => some .nothing
  | "true" => some (.flag true)
  | "false" => some (.flag false)
  | _ =>
      let (negative, ds) := Numeral.sign cs
      (Scan.withoutUnderscores ds).bind (number? negative)

/-! ### Values -/

/-- The name of a field of a record, up to its colon. -/
def fieldName : Scan String := fun cs =>
  match Scan.word (fun c => Text.isAlphanumeric c || c == '_') (Scan.skip cs) with
  | none => none
  | some (w, cs) =>
      match Scan.skip cs with
      | ':' :: cs => some (String.ofList w, cs)
      | _ => none

/-- A field of a record. -/
def field (value : Scan Setting) : Scan (String × Setting) := fun cs =>
  match fieldName cs with
  | none => none
  | some (n, cs) => (value cs).map fun r => ((n, r.1), r.2)

/-- A text as a name, and its value. -/
def pair (value : Scan Setting) : Scan (String × Setting) := fun cs =>
  match value cs with
  | some (.leaf _ (.text n), cs) => Scan.named value n cs
  | _ => none

/-- What stands in parentheses: a record if a name with a colon comes first, else a list. -/
def parenthesised (origin : Option String) (value : Scan Setting) : Scan Setting := fun cs =>
  if (fieldName cs).isSome then
    (Scan.items Scan.skip (field value) ')' (cs.length + 1) cs).map fun r =>
      (.ofPairs origin r.1, r.2)
  else
    match Scan.items Scan.skip value ')' (cs.length + 1) cs with
    | some ([], cs) => some (.leaf origin .nothing, cs)
    | some (vs, cs) => some (.list origin vs, cs)
    | none => none

/-- What a word stands for, or the record or value that it introduces. -/
def afterWord (origin : Option String) (value : Scan Setting) (w : List Char) : Scan Setting :=
  fun cs =>
    match Scan.skip cs with
    | '(' :: rest =>
        match parenthesised origin value rest with
        | some (.list o [v], rest) => some (if w = "Some".toList then v else .list o [v], rest)
        | r => r
    | _ => (leaf? w).map fun v => (.leaf origin v, cs)

/-- A value, nested less than `depth` deep. -/
def value (origin : Option String) : (depth : Nat) → Scan Setting
  | 0, _ => none
  | depth + 1, cs =>
      let inner := value origin depth
      let leafOf (r : String × List Char) : Setting × List Char := (.leaf origin (.text r.1), r.2)
      match Scan.skip cs with
      | '(' :: cs => parenthesised origin inner cs
      | '\x7b' :: cs =>
          (Scan.items Scan.skip (pair inner) '\x7d' (cs.length + 1) cs).map fun r =>
            (.ofPairs origin r.1, r.2)
      | '[' :: cs =>
          (Scan.items Scan.skip inner ']' (cs.length + 1) cs).map fun r => (.list origin r.1, r.2)
      | '"' :: cs => (text cs).map leafOf
      | '\x27' :: cs => (character cs).map leafOf
      | 'r' :: '"' :: cs => (rawText [] cs).map leafOf
      | 'r' :: '#' :: cs =>
          let signs := '#' :: cs.takeWhile (· == '#')
          match cs.dropWhile (· == '#') with
          | '"' :: cs => (rawText signs cs).map leafOf
          | _ => none
      | cs =>
          match Scan.word isWordChar cs with
          | none => none
          | some (w, cs) => afterWord origin inner w cs

/-- The layer that a file is. -/
def read (origin : Option String) : List Char → Option Layer := Scan.layer (value origin)

end Ron

end SecretResolver
