/-
**Broken rules of nested records.**

A check of a record reports for each field what is wrong with it, with its parts, or with the
items of its list.  The report is flattened to one line for each field that has messages.

Main definitions:

* `Violations`, `Violation`;
* `Violations.lines` — the flattened report.
-/

import SecretResolver.Failure

set_option relaxedAutoImplicit false
set_option autoImplicit false

namespace SecretResolver

/-- What is wrong with a field. -/
inductive Violation where
  /-- Messages about the field itself; nothing stands for one that was not given. -/
  | messages (texts : List (Option String))
  | record (fields : List (String × Violation))
  /-- What is wrong with the fields of the items of a list, by their index. -/
  | list (items : List (Nat × List (String × Violation)))
  deriving Repr, Inhabited

/-- What is wrong with the fields of a record. -/
abbrev Violations := List (String × Violation)

namespace Violations

/-- What stands for a message that was not given. -/
def unnamedMessage : String := "Invalid value"

/-- The path of a field below another. -/
def join (path name : String) : String := if path.isEmpty then name else s!"{path}.{name}"

/-- The line of a field. -/
def line (path : String) (texts : List (Option String)) : String :=
  s!"{path}: " ++ Text.commaList (texts.map fun t => t.getD unnamedMessage)

mutual

/-- The lines of the fields below a path. -/
def linesOf (path : String) : List (String × Violation) → List String
  | [] => []
  | (name, v) :: fields => linesAt (join path name) v ++ linesOf path fields

/-- The lines of one field. -/
def linesAt (path : String) : Violation → List String
  | .messages texts => [line path texts]
  | .record fields => linesOf path fields
  | .list items => linesOfItems path items

/-- The lines of the items of a list. -/
def linesOfItems (path : String) : List (Nat × List (String × Violation)) → List String
  | [] => []
  | (i, fields) :: items => linesOf s!"{path}[{i}]" fields ++ linesOfItems path items

end

/-- The flattened report, in the order of its lines. -/
def lines (vs : Violations) : List String := (linesOf "" vs).mergeSort fun a b => decide (a ≤ b)

/-- The failure of a check. -/
def toError (vs : Violations) : SecretError := .config (.invalid vs.lines)

end Violations

end SecretResolver
