/-
**Log filters.**

A filter is a list of directives with commas between them.  A directive is a level, a target, or a
target and a span, in square brackets, with a level after an equals sign.  A span may ask for
fields, in braces, and fields for values.  A level is a name in any case or a digit.

Main definitions:

* `Threshold` — the most verbose level that passes, if any does;
* `Directive`, `Directive.parse?`;
* `LogFilter`, `LogFilter.parse?`, `LogFilter.threshold`.
-/

import SecretResolver.Log
import SecretResolver.Number.Numeral
import SecretResolver.Text.Blank
import SecretResolver.Text.Letters

set_option relaxedAutoImplicit false
set_option autoImplicit false

namespace SecretResolver

/-! ### Levels -/

/-- The most verbose level that passes; nothing passes without one. -/
abbrev Threshold := Option LogLevel

namespace Threshold

/-- How much passes. -/
def rank (t : Threshold) : Nat := (t.map LogLevel.rank).getD 0

/-- The name of a threshold. -/
def name (t : Threshold) : String := (t.map LogLevel.name).getD "off"

/-- Of two thresholds the one that lets more pass. -/
def max (s t : Threshold) : Threshold := if rank s < rank t then t else s

/-- All thresholds, from the one that lets nothing pass. -/
def all : List Threshold := none :: LogLevel.all.map some

/-- The threshold that a text names, by its name or its place. -/
def parse? (s : String) : Option Threshold :=
  match Numeral.natural? s with
  | some n => all.find? fun t => rank t == n
  | none => all.find? fun t => Text.sameIgnoringCase (name t) s

end Threshold

/-! ### Directives -/

/-- A directive. -/
structure Directive where
  target : Option String
  span : Option String
  /-- The fields that it asks for, with their values if it does for these. -/
  fields : List (String × Option String)
  threshold : Threshold
  deriving Repr, DecidableEq

namespace Directive

/-- Everything passes that is not ruled out. -/
def everything : Directive := ⟨none, none, [], some .trace⟩

/-- How far a directive has been read; a number is the place where the present piece begins. -/
inductive Stage where
  | start
  | word (begin_ : Nat)
  | span (begin_ : Nat)
  | field (begin_ : Nat)
  | fieldsEnd
  | spanEnd
  | level (begin_ : Nat)
  deriving Repr, DecidableEq

/-- The characters from one place to another. -/
def piece (cs : List Char) (a b : Nat) : List Char := (cs.take b).drop a

/-- Whether a directive may begin with a character. -/
def mayBegin (c : Char) : Bool := c == '-' || c == ':' || c == '_' || Text.isLetterOrNumber c

/-- A field with its value, if it has one. -/
def field (cs : List Char) : String × Option String :=
  match Text.splitAll '=' cs with
  | name :: value :: _ => (String.ofList name, some (String.ofList value))
  | _ => (String.ofList cs, none)

/-- What the character at place `i` does to a directive that is cut out of `cs`. -/
def step (cs : List Char) (i : Nat) (c : Char) (d : Directive) : Stage → Option (Stage × Directive)
  | .start =>
      if c == '[' then some (.span (i + 1), d)
      else if mayBegin c then some (.word i, d)
      else none
  | .word a =>
      let named := { d with target := some (String.ofList (piece cs a i)) }
      if c == '=' then some (.level (i + 1), named)
      else if c == '[' then some (.span (i + 1), named)
      else some (.word a, d)
  | .span a =>
      let name := String.ofList (piece cs a i)
      if c == ']' then some (.spanEnd, { d with span := some name })
      else if c == '\x7b' then
        some (.field (i + 1), { d with span := if name.isEmpty then none else some name })
      else some (.span a, d)
  | .field a =>
      if c == '\x7d' then
        let f := piece cs a i
        if f.isEmpty then none else some (.fieldsEnd, { d with fields := d.fields ++ [field f] })
      else some (.field a, d)
  | .fieldsEnd => if c == ']' then some (.spanEnd, d) else none
  | .spanEnd => if c == '=' then some (.level (i + 1), d) else none
  | .level a => some (.level a, d)

/-- What some characters, the first of them at place `i`, do to a directive. -/
def run (cs : List Char) : (i : Nat) → List Char → Stage → Directive → Option (Stage × Directive)
  | _, [], stage, d => some (stage, d)
  | i, c :: rest, stage, d =>
      match step cs i c d stage with
      | none => none
      | some (stage, d) => run cs (i + 1) rest stage d

/-- What the end of the text does to a directive.  A word that names no level is a target. -/
def finish (cs : List Char) (d : Directive) : Stage → Option Directive
  | .word a =>
      let w := String.ofList (cs.drop a)
      match Threshold.parse? w with
      | some t => some { d with threshold := t }
      | none => some { d with target := some w }
  | .level a =>
      let w := String.ofList (cs.drop a)
      if w.isEmpty then some d
      else (Threshold.parse? w).map fun t => { d with threshold := t }
  | .spanEnd => some d
  | _ => none

/-- The directive that a text is.  Places are counted from the first character that is not blank,
but pieces are cut out of the whole text at these places. -/
def parse? (cs : List Char) : Option Directive :=
  match run cs 0 (Text.trim cs) .start everything with
  | none => none
  | some (stage, d) => finish cs d stage

end Directive

/-! ### Filters -/

/-- A filter. -/
abbrev LogFilter := List Directive

namespace LogFilter

/-- The filter that a text is. -/
def parse? (s : String) : Option LogFilter :=
  ((Text.splitAll ',' s.toList).filter fun p => !p.isEmpty).mapM Directive.parse?

/-- The most verbose level that any directive lets pass: errors if there are no directives, and
everything if a value is asked for, since values are not known before. -/
def threshold (f : LogFilter) : Threshold :=
  if f.isEmpty then some .error
  else if f.any fun d => d.fields.any fun x => x.2.isSome then some .trace
  else f.foldl (fun t d => t.max d.threshold) none

/-- The filter that is in force: the one of the environment, unless it is empty or missing, and the
one of the settings otherwise. -/
def inForce (environment : Option String) (level : String) : Except SecretError LogFilter :=
  let text :=
    match environment with
    | some s => if s.isEmpty then level else s
    | none => level
  match parse? text with
  | some f => .ok f
  | none => .error (.config .logFilter)

end LogFilter

end SecretResolver
