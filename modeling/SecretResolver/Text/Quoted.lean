/-
**Texts between quotes.**

Where a text is shown to people it stands between double quotes, with an escape for everything that
would be mistaken or not be seen.

Main definitions:

* `Text.quote`.
-/

import SecretResolver.Text.Hidden

set_option relaxedAutoImplicit false
set_option autoImplicit false

namespace SecretResolver

namespace Text

/-- A character by its number. -/
def numberEscape (c : Char) : List Char :=
  "\\u\x7b".toList ++ Nat.toDigits 16 c.toNat ++ ['\x7d']

/-- A character as it is shown between quotes. -/
def quoteChar (c : Char) : List Char :=
  match c with
  | '\x00' => ['\\', '0']
  | '\t' => ['\\', 't']
  | '\n' => ['\\', 'n']
  | '\r' => ['\\', 'r']
  | '"' => ['\\', '"']
  | '\\' => ['\\', '\\']
  | c => if isHidden c then numberEscape c else [c]

/-- A text between quotes. -/
def quote (s : String) : String :=
  String.ofList ('"' :: s.toList.flatMap quoteChar ++ ['"'])

end Text

end SecretResolver
