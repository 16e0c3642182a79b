/-
**Writing CBOR.**

Texts and maps of texts, each head in its shortest form and every length given.

Main definitions:

* `Cbor.writeHead`, `Cbor.writeText`, `Cbor.writeMap`.
-/

import SecretResolver.Cbor.Reader

set_option relaxedAutoImplicit false
set_option autoImplicit false

namespace SecretResolver

namespace Cbor

/-- A number in so many bytes, most significant first. -/
def bigEndian : (width : Nat) → Nat → Bytes
  | 0, _ => []
  | width + 1, n => UInt8.ofNat (n / Nat.pow 256 width) :: bigEndian width n

/-- The five low bits of the first byte of a head whose number takes so many bytes. -/
def lowBits (width n : Nat) : Nat :=
  match width with
  | 0 => n
  | 1 => 24
  | 2 => 25
  | 4 => 26
  | _ => 27

/-- A head in its shortest form. -/
def writeHead (kind n : Nat) : Bytes :=
  let width := leastWidth n
  UInt8.ofNat (32 * kind + lowBits width n) :: bigEndian width n

/-- A text. -/
def writeText (s : String) : Bytes :=
  let bs := Utf8.ofString s
  writeHead 3 bs.length ++ bs

/-- A map of texts. -/
def writeMap (entries : List (String × String)) : Bytes :=
  writeHead 5 entries.length ++ entries.flatMap fun e => writeText e.1 ++ writeText e.2

end Cbor

end SecretResolver
