/-
**Named parameters of a reference.**

Both kinds of reference carry a list of segments, each a name and a value around a delimiter.  A
name is a non-empty word of ASCII letters and digits, a value is any non-empty text, and no name
comes twice.

Main definitions:

* `Parameters.Fault` — what is wrong with a segment;
* `Parameters.read` — the table of a list of segments;
* `Parameters.write` — the segments of a table.
-/

import SecretResolver.Table
import SecretResolver.Text.Split

set_option relaxedAutoImplicit false
set_option autoImplicit false

namespace SecretResolver

namespace Parameters

/-- What is wrong with a segment. -/
inductive Fault where
  /-- There is no delimiter between name and value. -/
  | undelimited
  /-- The name is not a word of letters and digits, or it is reserved. -/
  | illegalName (name : String)
  | noValue (name : String)
  | repeated (name : String)
  deriving Repr, DecidableEq

/-- The part of the message that does not depend on the grammar. -/
def Fault.detail (undelimited : String) : Fault → String
  | .undelimited => undelimited
  | .illegalName name => s!"illegal parameter name '{name}'"
  | .noValue name => s!"parameter '{name}' has no value"
  | .repeated name => s!"duplicate parameter '{name}'"

/-- Whether a text is a non-empty word of letters and digits. -/
def isName (cs : List Char) : Bool := !cs.isEmpty && cs.all Text.isAlphanumeric

/-- How the segments of a grammar look: the delimiter within a segment and the names that are not
to be used. -/
structure Grammar where
  separator : Char
  delimiter : Char
  reserved : List String
  deriving Repr, DecidableEq

/-- The name and the value of a segment. -/
def segment (g : Grammar) (cs : List Char) : Except Fault (String × String) :=
  match Text.splitFirst g.delimiter cs with
  | none => .error .undelimited
  | some (name, value) =>
      if !isName name || String.ofList name ∈ g.reserved then
        .error (.illegalName (String.ofList name))
      else if value.isEmpty then .error (.noValue (String.ofList name))
      else .ok (String.ofList name, String.ofList value)

/-- The table of the segments, added to those read before. -/
def readInto (g : Grammar) (t : Table String) : List (List Char) → Except Fault (Table String)
  | [] => .ok t
  | s :: ss =>
      match segment g s with
      | .error fault => .error fault
      | .ok (name, value) =>
          match t.add? name value with
          | none => .error (.repeated name)
          | some t => readInto g t ss

/-- The table of some segments, in the order in which they are written. -/
def read (g : Grammar) (segments : List (List Char)) : Except Fault (Table String) :=
  readInto g Table.empty segments

/-- One segment as text. -/
def writeSegment (g : Grammar) (e : String × String) : List Char :=
  e.1.toList ++ g.delimiter :: e.2.toList

/-- The segments of a table in order. -/
def write (g : Grammar) (t : Table String) : List (List Char) := t.entries.map (writeSegment g)

end Parameters

end SecretResolver
