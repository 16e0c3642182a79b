/-
**Writing JSON.**

Texts are written with the short escapes where there are any, other control characters as `\u00xx`
and everything else as it is.  Nothing but brackets, colons and commas stands between them.

Main definitions:

* `Json.writeText`, `Json.writeTexts`, `Json.writeMembers`;
* `Json.writeTable` — an object of texts over several lines.
-/

import SecretResolver.Json.Value

set_option relaxedAutoImplicit false
set_option autoImplicit false

namespace SecretResolver

namespace Json

/-- A hexadecimal digit in small letters. -/
def hexDigit (n : Nat) : Char := Char.ofNat (if n < 10 then 48 + n else 87 + n)

/-- A character as it stands within a text. -/
def writeChar (c : Char) : List Char :=
  match c with
  | '"' => ['\\', '"']
  | '\\' => ['\\', '\\']
  | '\x08' => ['\\', 'b']
  | '\x0c' => ['\\', 'f']
  | '\n' => ['\\', 'n']
  | '\r' => ['\\', 'r']
  | '\t' => ['\\', 't']
  | c =>
      if c.toNat < 32 then ['\\', 'u', '0', '0', hexDigit (c.toNat / 16), hexDigit (c.toNat % 16)]
      else [c]

/-- A text between quotes. -/
def writeText (s : String) : List Char := '"' :: s.toList.flatMap writeChar ++ ['"']

/-- Pieces with a separator between each two of them. -/
def separate (sep : List Char) : List (List Char) → List Char
  | [] => []
  | [p] => p
  | p :: q :: ps => p ++ sep ++ separate sep (q :: ps)

/-- A list of texts. -/
def writeTexts (ss : List String) : List Char :=
  '[' :: separate [','] (ss.map writeText) ++ [']']

/-- A name, a colon and what is already written. -/
def writeMember (name : String) (value : List Char) : List Char := writeText name ++ ':' :: value

/-- An object of members whose values are already written. -/
def writeMembers (ms : List (String × List Char)) : List Char :=
  '\x7b' :: separate [','] (ms.map fun m => writeMember m.1 m.2) ++ ['\x7d']

/-- One object of a table, indented by two blanks. -/
def writeRow (row : List (String × String)) : List Char :=
  let line (m : String × String) : List Char :=
    "    ".toList ++ writeText m.1 ++ ": ".toList ++ writeText m.2
  "  \x7b\n".toList ++ separate ",\n".toList (row.map line) ++ "\n  \x7d".toList

/-- A list of objects over several lines. -/
def writeTable : List (List (String × String)) → List Char
  | [] => "[]".toList
  | rows => "[\n".toList ++ separate ",\n".toList (rows.map writeRow) ++ "\n]".toList

end Json

end SecretResolver
