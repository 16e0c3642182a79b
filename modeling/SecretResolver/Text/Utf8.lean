/-
**UTF-8.**

Payloads are lists of bytes.  `Utf8.encode` writes a text, `Utf8.decode` reads one and, when the
bytes are no text, reports what is left from the first offending byte on.  The decoder accepts the
shortest form of each scalar value only: no overlong forms, no surrogates, nothing above U+10FFFF.

Main definitions:

* `Utf8.Step` — one character, or why there is none at the head of the bytes;
* `Utf8.step`, `Utf8.decode`, `Utf8.encode`, `Utf8.text?`.
-/

set_option relaxedAutoImplicit false
set_option autoImplicit false

namespace SecretResolver

/-- Payloads as the rest of the library sees them. -/
abbrev Bytes := List UInt8

namespace Utf8

/-! ### Writing -/

/-- The bytes of a text. -/
def encode (cs : List Char) : Bytes := cs.flatMap String.utf8EncodeChar

@[simp] theorem encode_nil : encode [] = [] := rfl

@[simp] theorem encode_cons (c : Char) (cs : List Char) :
    encode (c :: cs) = String.utf8EncodeChar c ++ encode cs := rfl

theorem encode_append (cs ds : List Char) : encode (cs ++ ds) = encode cs ++ encode ds := by
  simp [encode]

/-! ### Reading -/

/-- What stands at the head of some bytes. -/
inductive Step where
  | char (c : Char) (rest : Bytes)
  /-- The bytes end inside a character that they begin correctly. -/
  | cut
  | invalid
  deriving Repr, DecidableEq

/-- A continuation byte. -/
def isTail (b : UInt8) : Bool := 0x80 ≤ b && b ≤ 0xBF

/-- The six payload bits of a continuation byte. -/
def tailBits (b : UInt8) : Nat := b.toNat - 0x80

/-- The second bytes that may follow the leading byte `b` of a longer form: they exclude overlong
forms, surrogates and values above U+10FFFF. -/
def isSecond (b c : UInt8) : Bool :=
  if b == 0xE0 then 0xA0 ≤ c && c ≤ 0xBF
  else if b == 0xED then 0x80 ≤ c && c ≤ 0x9F
  else if b == 0xF0 then 0x90 ≤ c && c ≤ 0xBF
  else if b == 0xF4 then 0x80 ≤ c && c ≤ 0x8F
  else isTail c

/-- The character of two bytes. -/
def char2 (b c : UInt8) : Char := Char.ofNat ((b.toNat - 0xC0) * 64 + tailBits c)

/-- The character of three bytes. -/
def char3 (b c d : UInt8) : Char :=
  Char.ofNat ((b.toNat - 0xE0) * 4096 + tailBits c * 64 + tailBits d)

/-- The character of four bytes. -/
def char4 (b c d e : UInt8) : Char :=
  Char.ofNat ((b.toNat - 0xF0) * 262144 + tailBits c * 4096 + tailBits d * 64 + tailBits e)

/-- The character at the head of the bytes; there is no such thing for no bytes at all, which
counts as `cut`. -/
def step : Bytes → Step
  | [] => .cut
  | b :: rest =>
      if b < 0x80 then .char (Char.ofNat b.toNat) rest
      else if 0xC2 ≤ b && b ≤ 0xDF then
        match rest with
        | [] => .cut
        | c :: rest => if isTail c then .char (char2 b c) rest else .invalid
      else if 0xE0 ≤ b && b ≤ 0xEF then
        match rest with
        | [] => .cut
        | [c] => if isSecond b c then .cut else .invalid
        | c :: d :: rest =>
            if isSecond b c && isTail d then .char (char3 b c d) rest else .invalid
      else if 0xF0 ≤ b && b ≤ 0xF4 then
        match rest with
        | [] => .cut
        | [c] => if isSecond b c then .cut else .invalid
        | [c, d] => if isSecond b c && isTail d then .cut else .invalid
        | c :: d :: e :: rest =>
            if isSecond b c && isTail d && isTail e then .char (char4 b c d e) rest else .invalid
      else .invalid

/-- Reading a character uses up at least one byte. -/
theorem length_lt_of_step {bs rest : Bytes} {c : Char} (h : step bs = .char c rest) :
    rest.length < bs.length := by
  unfold step at h
  repeat' split at h
  all_goals simp_all
  all_goals omega

/-- The longest beginning of the bytes that is text, and the bytes from the first one on that does
not belong to any character. -/
def decode (bs : Bytes) : List Char × Bytes :=
  match h : step bs with
  | .char c rest =>
      have := length_lt_of_step h
      let (cs, left) := decode rest
      (c :: cs, left)
  | .cut => ([], bs)
  | .invalid => ([], bs)
termination_by bs.length

/-- The text that the bytes are, if they are one. -/
def text? (bs : Bytes) : Option String :=
  match decode bs with
  | (cs, []) => some (String.ofList cs)
  | (_, _ :: _) => none

/-- The bytes of a stored text. -/
def ofString (s : String) : Bytes := encode s.toList

end Utf8

end SecretResolver
