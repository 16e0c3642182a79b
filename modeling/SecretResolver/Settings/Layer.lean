/-
**Layers of settings.**

A layer gives values to some keys; tables of values lie within tables.  Putting one layer over
another, tables are merged field by field and everything else is replaced.  A key at the top may be
a path with points between its names.  Values remember where they come from, and are converted to
the type that is wanted: numbers to texts, texts and truth values to numbers, and so on.

Main definitions:

* `Setting`, `Layer` — values, and names with values;
* `Layer.put`, `Layer.putAt`, `Layer.onto` — merging;
* `Setting.natural`, `Setting.flag`, `Setting.text` — conversions.
-/

import SecretResolver.Failure
import SecretResolver.Table
import SecretResolver.Text.Lower

set_option relaxedAutoImplicit false
set_option autoImplicit false

namespace SecretResolver

/-- A single value in a layer. -/
inductive Leaf where
  | flag (b : Bool)
  | integer (n : Int)
  | real (x : Binary64)
  | text (s : String)
  | nothing
  deriving Repr, DecidableEq

/-- A value in a layer, with what it comes from. -/
inductive Setting where
  | leaf (origin : Option String) (value : Leaf)
  | list (origin : Option String) (items : List Setting)
  | table (origin : Option String) (fields : List (String × Setting))
  deriving Repr, Inhabited

/-- Names with values, each name once. -/
abbrev Layer := List (String × Setting)

namespace Setting

/-- Where a value comes from. -/
def origin : Setting → Option String
  | .leaf origin _ => origin
  | .list origin _ => origin
  | .table origin _ => origin

/-- The fields of a table; other values have none. -/
def fields : Setting → Layer
  | .table _ fields => fields
  | _ => []

/-- Where a table comes from; one that takes the place of another value comes from nowhere. -/
def tableOrigin : Setting → Option String
  | .table origin _ => origin
  | _ => none

end Setting

/-! ### Merging -/

namespace Layer

/-- The value with a name, an empty table if there is none. -/
def valueOf (name : String) (l : Layer) : Setting :=
  (Entries.find? name l).getD (.table none [])

mutual

/-- Puts a value under a name; the fields of a table are put one by one into what is there. -/
def put (name : String) : Setting → Layer → Layer
  | .leaf origin value, l => Entries.put name (.leaf origin value) l
  | .list origin items, l => Entries.put name (.list origin items) l
  | .table _ [], l => Entries.put name (l.valueOf name) l
  | .table _ (f :: fs), l =>
      let old := l.valueOf name
      Entries.put name (.table old.tableOrigin (putAll fs (put f.1 f.2 old.fields))) l

/-- Puts values under their names. -/
def putAll : List (String × Setting) → Layer → Layer
  | [], l => l
  | f :: fs, l => putAll fs (put f.1 f.2 l)

end

/-- Puts a value at a path. -/
def putAt : List String → Setting → Layer → Layer
  | [], _, l => l
  | [name], v, l => put name v l
  | name :: more, v, l =>
      let old := l.valueOf name
      Entries.put name (.table old.tableOrigin (putAt more v old.fields)) l

/-- The path that a key is: its names between points, or the key as it is. -/
def pathOf (key : String) : List String :=
  let pieces := Text.splitAll '.' key.toList
  if pieces.all fun p => !p.isEmpty && p.all Text.isNameChar then pieces.map String.ofList else [key]

/-- A layer put over another one. -/
def onto (upper lower : Layer) : Layer :=
  upper.foldl (fun l f => putAt (pathOf f.1) f.2 l) lower

end Layer

/-! ### Conversions -/

namespace Setting

/-- What a value is, for those who wanted something else. -/
def found : Setting → Found
  | .leaf _ (.flag b) => .flag b
  | .leaf _ (.integer n) => .integer n
  | .leaf _ (.real x) => .real x
  | .leaf _ (.text s) => .text s
  | .leaf _ .nothing => .nothing
  | .list _ _ => .list
  | .table _ _ => .table

/-- The complaint that something else than the wanted type was found at a key. -/
def mismatch {α : Type} (v : Setting) (found : Found) (expected key : String) :
    Except ConfigCause α :=
  .error (.wrongType found expected key v.origin)

/-- The truth value that a word stands for. -/
def word? (s : String) : Option Bool :=
  let s := Text.lower s
  if s ∈ ["true", "on", "yes"] then some true
  else if s ∈ ["false", "off", "no"] then some false
  else none

/-- The natural number that a value is or stands for. -/
def natural (key : String) (v : Setting) : Except ConfigCause Nat :=
  match v with
  | .leaf _ (.integer n) =>
      if 0 ≤ n then .ok n.toNat
      else v.mismatch (.negative n) "an unsigned 64 bit or less integer" key
  | .leaf _ (.flag b) => .ok b.toNat
  | .leaf _ (.real x) => .ok (x.roundToNat Numeral.greatestWord)
  | .leaf _ (.text s) =>
      match (word? s).map Bool.toNat <|> Numeral.natural? s with
      | some n => .ok n
      | none => v.mismatch (.text s) "an integer" key
  | v => v.mismatch v.found "an integer" key

/-- The truth value that a value is or stands for; a number does unless it is zero. -/
def flag (key : String) (v : Setting) : Except ConfigCause Bool :=
  match v with
  | .leaf _ (.flag b) => .ok b
  | .leaf _ (.integer n) => .ok (n ≠ 0)
  | .leaf _ (.real x) => .ok (!x.isZero)
  | .leaf _ (.text s) =>
      let s := Text.lower s
      match word? (if s = "1" then "true" else if s = "0" then "false" else s) with
      | some b => .ok b
      | none => v.mismatch (.text s) "a boolean" key
  | v => v.mismatch v.found "a boolean" key

/-- The text that a value is or is written as. -/
def text (key : String) (v : Setting) : Except ConfigCause String :=
  match v with
  | .leaf _ (.text s) => .ok s
  | .leaf _ (.flag b) => .ok (toString b)
  | .leaf _ (.integer n) => .ok (toString n)
  | .leaf _ (.real x) => .ok (FloatStyle.plain.write x)
  | v => v.mismatch v.found "a string" key

end Setting

end SecretResolver
