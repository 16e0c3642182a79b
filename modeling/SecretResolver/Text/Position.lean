/-
**Positions in a payload.**

A reader that stops inside a payload knows how many bytes or characters it has used up.  A
`Position` says the same as a line and a column, which is what messages show: the payload itself
may be a secret and is never quoted.

Main definitions:

* `Position`, `Position.after` — the line and the column reached after some bytes.
-/

import SecretResolver.Text.Utf8

set_option relaxedAutoImplicit false
set_option autoImplicit false

namespace SecretResolver

/-- A place in a payload. -/
structure Position where
  line : Nat
  column : Nat
  deriving Repr, DecidableEq, Inhabited

namespace Position

/-- One byte further: a line feed begins a line, any other byte takes a column. -/
def advance (p : Position) (b : UInt8) : Position :=
  if b == 10 then ⟨p.line + 1, 0⟩ else ⟨p.line, p.column + 1⟩

/-- The place reached after some bytes from the start; the column counts the bytes of its line. -/
def after (bs : Bytes) : Position := bs.foldl advance ⟨1, 0⟩

end Position

end SecretResolver
