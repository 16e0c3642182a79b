/-
**Reading JSON.**

A reader takes what it needs from the front of the bytes and returns what is left.  A fault counts
the bytes that were not used up; a fault about the *next* byte counts that byte as used.

Main definitions:

* `Json.Reader`;
* `Json.word`, `Json.text`, `Json.number` — the scalars;
* `Json.items`, `Json.members` — the inside of arrays and objects, for any reader of items;
* `Json.valueAt` — a value whose arrays and objects are nested at most so deep;
* `Json.whole` — a reader applied to a complete text;
* `Json.read` — the value of a text.
-/

import SecretResolver.Json.Value
import SecretResolver.Number.Numeral

set_option relaxedAutoImplicit false
set_option autoImplicit false

namespace SecretResolver

namespace Json

universe u

/-- What a reader of `α` makes of some bytes: a result and the bytes after it, or a fault. -/
abbrev Reader (α : Type u) := Bytes → Except Fault (α × Bytes)

/-- The fault of a byte that has been used up. -/
def faultAfter {α : Type u} (kind : FaultKind) (rest : Bytes) : Except Fault α :=
  .error ⟨kind, rest.length⟩

/-- The fault of the byte that comes next. -/
def faultAt {α : Type u} (kind : FaultKind) (rest : Bytes) : Except Fault α :=
  .error ⟨kind, rest.length - 1⟩

/-- The four bytes that separate. -/
def isBlank (b : UInt8) : Bool := b == 32 || b == 10 || b == 9 || b == 13

/-- The bytes from the first one on that is not blank. -/
def skipBlanks (bs : Bytes) : Bytes := bs.dropWhile isBlank

/-- The ASCII digits. -/
def isDigit (b : UInt8) : Bool := 48 ≤ b && b ≤ 57

/-- The value of a digit. -/
def digit (b : UInt8) : Nat := b.toNat - 48

/-! ### Words -/

/-- The rest of a fixed word. -/
def word {α : Type u} (value : α) : (expected : Bytes) → Reader α
  | [], bs => .ok (value, bs)
  | _ :: _, [] => faultAfter .ended []
  | e :: es, b :: bs => if e = b then word value es bs else faultAfter .grammar bs

/-- What is left of `null` after its first letter. -/
def nullTail : Bytes := [117, 108, 108]

/-- What is left of `true` after its first letter. -/
def trueTail : Bytes := [114, 117, 101]

/-- What is left of `false` after its first letter. -/
def falseTail : Bytes := [97, 108, 115, 101]

/-! ### Texts -/

/-- The value of a hexadecimal digit. -/
def hexDigit? (b : UInt8) : Option Nat :=
  if isDigit b then some (digit b)
  else if 97 ≤ b && b ≤ 102 then some (b.toNat - 87)
  else if 65 ≤ b && b ≤ 70 then some (b.toNat - 55)
  else none

/-- The number that four hexadecimal digits denote. -/
def hexUnit : Reader Nat
  | a :: b :: c :: d :: rest =>
      match hexDigit? a, hexDigit? b, hexDigit? c, hexDigit? d with
      | some a, some b, some c, some d => .ok (((a * 16 + b) * 16 + c) * 16 + d, rest)
      | _, _, _, _ => faultAfter .grammar rest
  | _ => faultAfter .ended []

/-- Whether a number is the first half of a pair that denotes one character. -/
def isLeading (n : Nat) : Bool := 0xD800 ≤ n && n ≤ 0xDBFF

/-- Whether a number is the second half of such a pair. -/
def isTrailing (n : Nat) : Bool := 0xDC00 ≤ n && n ≤ 0xDFFF

/-- The second half of a pair, as a further escape, after its first half. -/
def trailingUnit (leading : Nat) : Reader Char
  | [] => faultAfter .ended []
  | [92] => faultAfter .ended []
  | 92 :: 117 :: rest =>
      match hexUnit rest with
      | .error fault => .error fault
      | .ok (n, rest) =>
          if isTrailing n then
            .ok (Char.ofNat ((leading - 0xD800) * 1024 + (n - 0xDC00) + 0x10000), rest)
          else faultAfter .grammar rest
  | 92 :: _ :: rest => faultAfter .grammar rest
  | _ :: rest => faultAfter .grammar rest

/-- The character of a numeric escape, which takes two escapes above U+FFFF. -/
def numericEscape : Reader Char := fun bs =>
  match hexUnit bs with
  | .error fault => .error fault
  | .ok (n, rest) =>
      -- a second half without a first one is no character
      if isTrailing n then faultAfter .grammar rest
      else if isLeading n then trailingUnit n rest
      else .ok (Char.ofNat n, rest)

/-- The character that a letter stands for after a backslash. -/
def escapeLetter? (b : UInt8) : Option Char :=
  match b with
  | 34 => some '"'
  | 92 => some '\\'
  | 47 => some '/'
  | 98 => some '\x08'
  | 102 => some '\x0c'
  | 110 => some '\n'
  | 114 => some '\r'
  | 116 => some '\t'
  | _ => none

/-- The character of what follows a backslash. -/
def escape : Reader Char
  | [] => faultAfter .ended []
  | 117 :: rest => numericEscape rest
  | b :: rest =>
      match escapeLetter? b with
      | some c => .ok (c, rest)
      | none => faultAfter .grammar rest

/-- The bytes of a text up to its closing quote, escapes resolved.  The fuel is a bound on the
number of bytes. -/
def quoted : Nat → Reader Bytes
  | 0, bs => faultAfter .ended bs
  | _ + 1, [] => faultAfter .ended []
  | _ + 1, 34 :: rest => .ok ([], rest)
  | fuel + 1, 92 :: rest =>
      match escape rest with
      | .error fault => .error fault
      | .ok (c, rest) =>
          match quoted fuel rest with
          | .error fault => .error fault
          | .ok (bs, rest) => .ok (String.utf8EncodeChar c ++ bs, rest)
  | fuel + 1, b :: rest =>
      -- control characters have to be escaped
      if b < 32 then faultAfter .grammar rest
      else
        match quoted fuel rest with
        | .error fault => .error fault
        | .ok (bs, rest) => .ok (b :: bs, rest)

/-- The fault of a text that is none, at the first byte that belongs to no character. -/
def notText {α : Type u} (bs rest : Bytes) : Except Fault α :=
  faultAt .grammar ((Utf8.decode (bs.take (bs.length - rest.length))).2 ++ rest)

/-- The text up to a closing quote. -/
def text : Reader String := fun bs =>
  match quoted (bs.length + 1) bs with
  | .error fault => .error fault
  | .ok (inner, rest) =>
      match Utf8.text? inner with
      | some s => .ok (s, rest)
      | none => notText bs rest

/-! ### Numbers -/

/-- Digits at the front of the bytes. -/
def digits (bs : Bytes) : Bytes × Bytes := (bs.takeWhile isDigit, bs.dropWhile isDigit)

/-- Adds digits to a significand as long as it fits 64 bits; returns it with the digits that did
not fit. -/
def accumulate (n : Nat) : Bytes → Nat × Bytes
  | [] => (n, [])
  | b :: bs =>
      if Numeral.greatestWord < n * 10 + digit b then (n, b :: bs)
      else accumulate (n * 10 + digit b) bs

/-- The power of ten that one scaling step can divide by. -/
def scaleStep : Nat := 308

/-- A significand times a power of ten that may be negative, rounded after each step as long as the
power is out of the range of a step; no number if it is too great. -/
def scaled : Nat → Binary64 → Int → Option Binary64
  | 0, x, _ => some x
  | fuel + 1, x, e =>
      if 0 ≤ e then
        if x.isZero then some x
        else if scaleStep < e then none
        else
          let y := x.product (.ofNat (Nat.pow 10 e.toNat))
          if y.isFinite then some y else none
      else if (-e).toNat ≤ scaleStep then some (x.quotient (.ofNat (Nat.pow 10 (-e).toNat)))
      else if x.isZero then some x
      -- every step rounds, so the double that comes out need not be the nearest one
      else scaled fuel (x.quotient (.ofNat (Nat.pow 10 scaleStep))) (e + scaleStep)

/-- A double with a sign. -/
def signed (negative : Bool) (x : Binary64) : Binary64 := if negative then x.negate else x

/-- The number of a significand and a power of ten. -/
def real (negative : Bool) (significand : Nat) (e : Int) : Reader Number := fun bs =>
  match scaled 10 (.ofNat significand) e with
  | some x => .ok (.real (signed negative x), bs)
  | none => faultAfter .grammar bs

/-- The greatest exponent that is taken at its value. -/
def maxExponent : Nat := 0x7FFFFFFF

/-- The digits of an exponent read so far, and what is left of them when it grows too great: the
digit that makes it so is used up. -/
def exponentDigits (n : Nat) : Bytes → Nat ⊕ Bytes
  | [] => .inl n
  | b :: bs =>
      if maxExponent < n * 10 + digit b then .inr bs else exponentDigits (n * 10 + digit b) bs

/-- An exponent after its sign. -/
def exponentTail (negative : Bool) (significand : Nat) (e : Int) (plus : Bool) : Reader Number
  | [] => faultAfter .ended []
  | b :: bs =>
      if !isDigit b then faultAfter .grammar bs
      else
        let (ds, rest) := digits bs
        match exponentDigits (digit b) ds with
        | .inl n => real negative significand (if plus then e + n else e - n) rest
        | .inr left =>
            -- zero stays zero whatever the power, and a power that is too small makes zero of anything
            if significand ≠ 0 && plus then faultAfter .grammar (left ++ rest)
            else .ok (.real (.zero negative), rest)

/-- An exponent after its letter. -/
def exponent (negative : Bool) (significand : Nat) (e : Int) : Reader Number
  | 43 :: bs => exponentTail negative significand e true bs
  | 45 :: bs => exponentTail negative significand e false bs
  | bs => exponentTail negative significand e true bs

/-- An exponent, if there is one. -/
def optionalExponent (negative : Bool) (significand : Nat) (e : Int) : Reader Number
  | 101 :: bs => exponent negative significand e bs
  | 69 :: bs => exponent negative significand e bs
  | bs => real negative significand e bs

/-- A fraction after its point.  Digits that no longer fit the significand are dropped. -/
def fraction (negative : Bool) (significand : Nat) (e : Int) : Reader Number := fun bs =>
  match digits bs with
  | ([], []) => faultAt .ended []
  | ([], rest) => faultAt .grammar rest
  | (ds, rest) =>
      let (n, dropped) := accumulate significand ds
      optionalExponent negative n (e - (ds.length - dropped.length : Nat)) rest

/-- The number of an integer without fraction and exponent. -/
def whole? (negative : Bool) (n : Nat) : Number :=
  if !negative then .integer n
  else if n ≠ 0 ∧ n ≤ 0x8000000000000000 then .integer (-n)
  else .real (Binary64.ofNat n).negate

/-- What follows the integer part of a number: `dropped` counts its digits that did not fit. -/
def numberTail (negative : Bool) (significand dropped : Nat) : Reader Number
  | 46 :: bs => fraction negative significand dropped bs
  | 101 :: bs => exponent negative significand dropped bs
  | 69 :: bs => exponent negative significand dropped bs
  | bs =>
      if dropped = 0 then .ok (whole? negative significand, bs)
      else real negative significand dropped bs

/-- A number after its sign. -/
def number (negative : Bool) : Reader Number
  | [] => faultAfter .ended []
  | 48 :: bs =>
      match bs with
      -- no digit may follow a leading zero
      | b :: _ => if isDigit b then faultAt .grammar bs else numberTail negative 0 0 bs
      | [] => numberTail negative 0 0 bs
  | b :: bs =>
      if !isDigit b then faultAfter .grammar bs
      else
        let (ds, rest) := digits bs
        let (n, dropped) := accumulate (digit b) ds
        numberTail negative n dropped.length rest

/-! ### Arrays and objects -/

/-- The items of an array, after its opening bracket if `first`, else after an item. -/
def items {α : Type u} (item : Reader α) : (fuel : Nat) → (first : Bool) → Reader (List α)
  | 0, _, bs => faultAt .ended bs
  | fuel + 1, first, bs =>
      let next (bs : Bytes) : Except Fault (List α × Bytes) :=
        match item bs with
        | .error fault => .error fault
        | .ok (x, bs) =>
            match items item fuel false bs with
            | .error fault => .error fault
            | .ok (xs, bs) => .ok (x :: xs, bs)
      match skipBlanks bs with
      | [] => faultAt .ended []
      | 93 :: bs => .ok ([], bs)
      | b :: bs =>
          if first then next (b :: bs)
          else if b == 44 then
            match skipBlanks bs with
            | [] => faultAt .ended []
            -- no comma before the closing bracket
            | 93 :: bs => faultAt .grammar (93 :: bs)
            | bs => next bs
          else faultAt .grammar (b :: bs)

/-- The colon between a name and its value. -/
def colon (bs : Bytes) : Except Fault Bytes :=
  match skipBlanks bs with
  | [] => faultAt .ended []
  | 58 :: bs => .ok bs
  | bs => faultAt .grammar bs

/-- The name of the next member, after the opening brace if `first`, else after a member; nothing
at the closing brace, which is used up. -/
def memberName? (first : Bool) : Reader (Option String) := fun bs =>
  let name (bs : Bytes) : Except Fault (Option String × Bytes) :=
    match text bs with
    | .error fault => .error fault
    | .ok (s, bs) => .ok (some s, bs)
  match skipBlanks bs with
  | [] => faultAt .ended []
  | 125 :: bs => .ok (none, bs)
  | b :: bs =>
      if first then
        if b == 34 then name bs else faultAt .grammar (b :: bs)
      else if b == 44 then
        match skipBlanks bs with
        | [] => faultAt .ended []
        | 34 :: bs => name bs
        | bs => faultAt .grammar bs
      else faultAt .grammar (b :: bs)

/-- The members of an object, after its opening brace if `first`, else after a member. -/
def members {α : Type u} (item : Reader α) :
    (fuel : Nat) → (first : Bool) → Reader (List (String × α))
  | 0, _, bs => faultAt .ended bs
  | fuel + 1, first, bs =>
      match memberName? first bs with
      | .error fault => .error fault
      | .ok (none, bs) => .ok ([], bs)
      | .ok (some name, bs) =>
          match colon bs with
          | .error fault => .error fault
          | .ok bs =>
              match item bs with
              | .error fault => .error fault
              | .ok (x, bs) =>
                  match members item fuel false bs with
                  | .error fault => .error fault
                  | .ok (xs, bs) => .ok ((name, x) :: xs, bs)

/-! ### Values -/

/-- Applies a function to the result of a reader. -/
def mapResult {α β : Type u} (f : α → β) : Except Fault (α × Bytes) → Except Fault (β × Bytes)
  | .error fault => .error fault
  | .ok (x, bs) => .ok (f x, bs)

/-- A scalar after its first byte, or nothing if no scalar begins with that byte. -/
def scalarAfter? (b : UInt8) (bs : Bytes) : Option (Except Fault (Value × Bytes)) :=
  match b with
  | 110 => some (word .null nullTail bs)
  | 116 => some (word (.flag true) trueTail bs)
  | 102 => some (word (.flag false) falseTail bs)
  | 34 => some (mapResult .text (text bs))
  | 45 => some (mapResult .number (number true bs))
  | b => if isDigit b then some (mapResult .number (number false (b :: bs))) else none

/-- A value whose arrays and objects are nested less than `depth` deep. -/
def valueAt : (depth : Nat) → Reader Value
  | 0, bs =>
      match skipBlanks bs with
      | [] => faultAt .ended []
      | b :: bs => (scalarAfter? b bs).getD (faultAt .grammar (b :: bs))
  | depth + 1, bs =>
      match skipBlanks bs with
      | [] => faultAt .ended []
      | 91 :: bs => mapResult .array (items (valueAt depth) (bs.length + 1) true bs)
      | 123 :: bs => mapResult .object (members (valueAt depth) (bs.length + 1) true bs)
      | b :: bs => (scalarAfter? b bs).getD (faultAt .grammar (b :: bs))

/-- How deep arrays and objects may be nested. -/
def maxDepth : Nat := 127

/-- A reader applied to a complete text: only blanks may follow. -/
def whole {α : Type u} (reader : Reader α) (bs : Bytes) : Except Fault α :=
  match reader bs with
  | .error fault => .error fault
  | .ok (x, rest) =>
      match skipBlanks rest with
      | [] => .ok x
      | rest => faultAt .grammar rest

/-- The value of a text. -/
def read (bs : Bytes) : Except Fault Value := whole (valueAt maxDepth) bs

end Json

end SecretResolver
