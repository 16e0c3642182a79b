/-
**TOML files.**

Lines of keys with values, below headers that name the table they belong to.  Keys are paths; a
header in double brackets adds a table to a list.  No key is given a value twice, and no table has
two headers.

Main definitions:

* `Toml.path`, `Toml.value` — keys and values;
* `Toml.define`, `Toml.openTable`, `Toml.openItem` — what lines do to a layer;
* `Toml.read` — the layer that a file is.
-/

import SecretResolver.Settings.Format.Scan

set_option relaxedAutoImplicit false
set_option autoImplicit false

namespace SecretResolver

namespace Toml

/-! ### Blanks and comments -/

/-- Passes over the blanks of a line. -/
def skipBlanks (cs : List Char) : List Char := cs.dropWhile Text.isBlank

/-- Passes over spaces and comments. -/
def skipLines : (fuel : Nat) → List Char → List Char
  | 0, cs => cs
  | _ + 1, [] => []
  | fuel + 1, c :: cs =>
      if Scan.isSpace c then skipLines fuel cs
      else if c == '#' then skipLines fuel (Scan.lineEnd cs)
      else c :: cs

/-- Passes over all spaces and comments. -/
def skip (cs : List Char) : List Char := skipLines (cs.length + 1) cs

/-- Passes over the rest of a line that holds nothing more. -/
def endLine (cs : List Char) : Option (List Char) :=
  match skipBlanks cs with
  | [] => some []
  | '\n' :: cs => some cs
  | '\r' :: '\n' :: cs => some cs
  | '#' :: cs => some (Scan.lineEnd cs)
  | _ => none

/-! ### Texts -/

/-- Whether a character may stand in a text of one line. -/
def isLineChar (c : Char) : Bool := c == '\t' || (0x20 ≤ c.toNat && c.toNat ≠ 0x7F)

/-- The character that an escape stands for, after its backslash. -/
def escape : Scan (List Char)
  | 'u' :: cs => (Scan.hexChar 4 cs).map fun r => ([r.1], r.2)
  | 'U' :: cs => (Scan.hexChar 8 cs).map fun r => ([r.1], r.2)
  | 'b' :: cs => some (['\x08'], cs)
  | 't' :: cs => some (['\t'], cs)
  | 'n' :: cs => some (['\n'], cs)
  | 'f' :: cs => some (['\x0c'], cs)
  | 'r' :: cs => some (['\r'], cs)
  | '"' :: cs => some (['"'], cs)
  | '\\' :: cs => some (['\\'], cs)
  | _ => none

/-- An escape of a text of several lines: at the end of a line it takes away the spaces after
it. -/
def longEscape : Scan (List Char) := fun cs =>
  match escape cs with
  | some r => some r
  | none =>
      match skipBlanks cs with
      | '\n' :: cs => some ([], cs.dropWhile Scan.isSpace)
      | '\r' :: '\n' :: cs => some ([], cs.dropWhile Scan.isSpace)
      | _ => none

/-- A text of one line after its opening quote. -/
def shortText (quote : Char) : Scan String := fun cs =>
  if quote == '"' then
    (Scan.quoted quote escape isLineChar (cs.length + 1) cs).map fun r =>
      (String.ofList r.1, r.2)
  else
    match cs.dropWhile fun c => c != quote with
    | [] => none
    | _ :: rest =>
        let s := cs.takeWhile fun c => c != quote
        if s.all isLineChar then some (String.ofList s, rest) else none

/-- A text of several lines, up to three quotes. -/
def longText (quote : Char) : (fuel : Nat) → Scan (List Char)
  | 0, _ => none
  | _ + 1, [] => none
  | fuel + 1, c :: cs =>
      match Text.dropStart [quote, quote, quote] (c :: cs) with
      | some rest =>
          match rest with
          | d :: e :: rest' =>
              if d == quote && e == quote then some ([quote, quote], rest')
              else if d == quote then some ([quote], e :: rest')
              else some ([], rest)
          | [d] => if d == quote then some ([quote], []) else some ([], rest)
          | [] => some ([], [])
      | none =>
          if c == '\\' && quote == '"' then
            match longEscape cs with
            | none => none
            | some (ds, cs) => (longText quote fuel cs).map fun r => (ds ++ r.1, r.2)
          else if isLineChar c || c == '\n' || c == '\r' then
            (longText quote fuel cs).map fun r => (c :: r.1, r.2)
          else none

/-- A text after its opening quote; after three quotes it may have several lines. -/
def text (quote : Char) : Scan String := fun cs =>
  match Text.dropStart [quote, quote] cs with
  | some rest =>
      let rest :=
        match rest with
        | '\n' :: rest => rest
        | '\r' :: '\n' :: rest => rest
        | rest => rest
      (longText quote (rest.length + 1) rest).map fun r => (String.ofList r.1, r.2)
  | none => shortText quote cs

/-! ### Keys -/

/-- A name, in quotes or not. -/
def name : Scan String
  | '"' :: cs => shortText '"' cs
  | '\x27' :: cs => shortText '\x27' cs
  | cs => (Scan.word Text.isNameChar cs).map fun r => (String.ofList r.1, r.2)

/-- Names with points between them, and the blanks after them. -/
def path : (fuel : Nat) → Scan (List String)
  | 0, _ => none
  | fuel + 1, cs =>
      match name (skipBlanks cs) with
      | none => none
      | some (n, cs) =>
          match skipBlanks cs with
          | '.' :: cs => (path fuel cs).map fun r => (n :: r.1, r.2)
          | cs => some ([n], cs)

/-! ### Scalars -/

/-- Whether a character may stand in a word, a numeral or a date. -/
def isWordChar (c : Char) : Bool := Text.isNameChar c || c == '.' || c == '+' || c == ':'

/-- Whether some characters begin with digits and signs as in a pattern, where each zero stands for
a digit. -/
def looksLike : (pattern : List Char) → List Char → Bool
  | [], _ => true
  | _ :: _, [] => false
  | p :: ps, c :: cs => (if p == '0' then Text.isDigit c else p == c) && looksLike ps cs

/-- Whether a word is a date or a time of day. -/
def isDate (w : List Char) : Bool :=
  looksLike "0000-00-00".toList w || looksLike "00:00".toList w

/-- The integer of a numeral without underscores. -/
def integer? (negative signed : Bool) (cs : List Char) : Option Int :=
  match cs with
  | ['0'] => some 0
  | '0' :: c :: _ =>
      if c ∈ ['x', 'o', 'b'] && !signed then Scan.basedInteger? false cs else none
  | cs => if Text.isDigits cs then Scan.basedInteger? negative cs else none

/-- Whether a decimal number has no needless zero in front, and digits on both sides of its
point. -/
def isTidy (cs : List Char) : Bool :=
  let whole := cs.takeWhile Text.isDigit
  !whole.isEmpty && (whole.length == 1 || whole.head? != some '0') &&
    match cs.dropWhile Text.isDigit with
    | '.' :: rest => rest.head?.any Text.isDigit
    | _ => true

/-- The double of a numeral without underscores. -/
def real? (negative : Bool) (cs : List Char) : Option Binary64 :=
  if cs = "inf".toList then some (.infinite negative)
  else if cs = "nan".toList then some .nan
  else if Text.isDigits cs || !isTidy cs then none
  else (Numeral.decimal? cs).map fun d => Binary64.ofDecimal negative d.1 d.2

/-- What a word denotes. -/
def leaf? (w : List Char) : Option Leaf :=
  if w = "true".toList then some (.flag true)
  else if w = "false".toList then some (.flag false)
  else if isDate w then some (.text (String.ofList w))
  else
    let (negative, ds) := Numeral.sign w
    match Scan.withoutUnderscores ds with
    | none => none
    | some ds =>
        match integer? negative (ds.length < w.length) ds with
        | some n => some (.integer n)
        | none => (real? negative ds).map .real

/-- A word; a date may have a time of day after a blank. -/
def word : Scan (List Char) := fun cs =>
  match Scan.word isWordChar cs with
  | none => none
  | some (w, ' ' :: cs) =>
      if looksLike "0000-00-00".toList w && w.length == 10 && looksLike "00:".toList cs then
        (Scan.word isWordChar cs).map fun r => (w ++ ' ' :: r.1, r.2)
      else some (w, ' ' :: cs)
  | r => r

/-! ### What lines do -/

/-- Gives a value to a path that has none. -/
def define (origin : Option String) (v : Setting) : List String → Layer → Option Layer
  | [], _ => none
  | [n], l => if (Entries.find? n l).isSome then none else some (Entries.put n v l)
  | n :: more, l =>
      match Entries.find? n l with
      | none =>
          (define origin v more []).map fun fs => Entries.put n (.table origin fs) l
      | some (.table o fs) =>
          (define origin v more fs).map fun fs => Entries.put n (.table o fs) l
      | some (.list o vs) =>
          match vs.getLast? with
          | some (.table p fs) =>
              (define origin v more fs).map fun fs =>
                Entries.put n (.list o (vs.dropLast ++ [.table p fs])) l
          | _ => none
      | some _ => none

/-- Makes a table at a path, unless there is one. -/
def openTable (origin : Option String) : List String → Layer → Option Layer
  | [], l => some l
  | n :: more, l =>
      match Entries.find? n l with
      | none =>
          (openTable origin more []).map fun fs => Entries.put n (.table origin fs) l
      | some (.table o fs) =>
          (openTable origin more fs).map fun fs => Entries.put n (.table o fs) l
      | some (.list o vs) =>
          match vs.getLast?, more with
          | some (.table p fs), _ :: _ =>
              (openTable origin more fs).map fun fs =>
                Entries.put n (.list o (vs.dropLast ++ [.table p fs])) l
          | _, _ => none
      | some _ => none

/-- Adds a table to the list at a path. -/
def openItem (origin : Option String) : List String → Layer → Option Layer
  | [], _ => none
  | [n], l =>
      match Entries.find? n l with
      | none => some (Entries.put n (.list origin [.table origin []]) l)
      | some (.list o vs) => some (Entries.put n (.list o (vs ++ [.table origin []])) l)
      | some _ => none
  | n :: more, l =>
      match Entries.find? n l with
      | none =>
          (openItem origin more []).map fun fs => Entries.put n (.table origin fs) l
      | some (.table o fs) =>
          (openItem origin more fs).map fun fs => Entries.put n (.table o fs) l
      | some (.list o vs) =>
          match vs.getLast? with
          | some (.table p fs) =>
              (openItem origin more fs).map fun fs =>
                Entries.put n (.list o (vs.dropLast ++ [.table p fs])) l
          | _ => none
      | some _ => none

/-- The layer of some paths with values. -/
def layerOf (origin : Option String) (pairs : List (List String × Setting)) : Option Layer :=
  pairs.foldlM (fun l p => define origin p.2 p.1 l) []

/-! ### Values -/

/-- A key and its value. -/
def pair (value : Scan Setting) : Scan (List String × Setting) := fun cs =>
  match path (cs.length + 1) cs with
  | some (p, '=' :: cs) => (value (skipBlanks cs)).map fun r => ((p, r.1), r.2)
  | _ => none

/-- A value, nested less than `depth` deep. -/
def value (origin : Option String) : (depth : Nat) → Scan Setting
  | 0, _ => none
  | depth + 1, cs =>
      match cs with
      | '[' :: cs =>
          (Scan.items skip (value origin depth) ']' (cs.length + 1) cs).map fun r =>
            (.list origin r.1, r.2)
      | '\x7b' :: cs =>
          match Scan.items skipBlanks (pair (value origin depth)) '\x7d' (cs.length + 1) cs with
          | none => none
          | some (ps, cs) => (layerOf origin ps).map fun fs => (.table origin fs, cs)
      | '"' :: cs => (text '"' cs).map fun r => (.leaf origin (.text r.1), r.2)
      | '\x27' :: cs => (text '\x27' cs).map fun r => (.leaf origin (.text r.1), r.2)
      | cs =>
          match word cs with
          | none => none
          | some (w, cs) => (leaf? w).map fun v => (.leaf origin v, cs)

/-! ### Files -/

/-- How far a file has been read. -/
structure State where
  layer : Layer
  here : List String
  headers : List (List String)

/-- What a header does. -/
def header (origin : Option String) (s : State) : List Char → Option (State × List Char)
  | '[' :: cs =>
      match path (cs.length + 1) cs with
      | some (p, ']' :: ']' :: cs) =>
          (openItem origin p s.layer).map fun l =>
            (⟨l, p, s.headers.filter fun h => !p.isPrefixOf h⟩, cs)
      | _ => none
  | cs =>
      match path (cs.length + 1) cs with
      | some (p, ']' :: cs) =>
          if p ∈ s.headers then none
          else (openTable origin p s.layer).map fun l => (⟨l, p, p :: s.headers⟩, cs)
      | _ => none

/-- What a line with a key does. -/
def line (origin : Option String) (s : State) (cs : List Char) : Option (State × List Char) :=
  match pair (value origin (cs.length + 1)) cs with
  | none => none
  | some ((p, v), cs) =>
      (define origin v (s.here ++ p) s.layer).map fun l => (⟨l, s.here, s.headers⟩, cs)

/-- What all lines do. -/
def lines (origin : Option String) : (fuel : Nat) → State → List Char → Option Layer
  | 0, _, _ => none
  | fuel + 1, s, cs =>
      match skip cs with
      | [] => some s.layer
      | c :: cs =>
          match if c == '[' then header origin s cs else line origin s (c :: cs) with
          | none => none
          | some (s, cs) => (endLine cs).bind (lines origin fuel s)

/-- The layer that a file is. -/
def read (origin : Option String) (cs : List Char) : Option Layer :=
  lines origin (cs.length + 1) ⟨[], [], []⟩ cs

end Toml

end SecretResolver
