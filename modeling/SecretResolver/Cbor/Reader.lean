/-
**Reading CBOR.**

Every item begins with a head: a kind and a number.  Texts and strings of bytes follow their heads
directly or in segments, the items of arrays and maps follow in a number that the head gives or up
to a stop.  A fault counts the bytes not yet used up where it lies.

Main definitions:

* `Cbor.Head`, `Cbor.head` — heads;
* `Cbor.textOf`, `Cbor.bytesOf` — what follows the head of a text or of a string of bytes;
* `Cbor.itemAfter` — what follows any head;
* `Cbor.read` — the item at the front of some bytes; what follows it does not matter.
-/

import SecretResolver.Cbor.Value

set_option relaxedAutoImplicit false
set_option autoImplicit false

namespace SecretResolver

namespace Cbor

universe u

/-- A fault while reading; an offset is told by the number of bytes that are left there. -/
inductive Stop where
  /-- A fault of the grammar with so many bytes left. -/
  | grammar (left : Nat)
  | other
  deriving Repr, DecidableEq

/-- What a reader of `α` makes of some bytes. -/
abbrev Reader (α : Type u) := Bytes → Except Stop (α × Bytes)

/-! ### Heads -/

/-- The kind of an item with the number that its head gives; a length may be left open. -/
inductive Head where
  /-- The integer `n`. -/
  | positive (n : Nat)
  /-- The integer `-1 - n`. -/
  | negative (n : Nat)
  | bytes (length : Option Nat)
  | text (length : Option Nat)
  | array (length : Option Nat)
  | map (length : Option Nat)
  | tag (n : Nat)
  | simple (n : Nat)
  | real (x : Binary64)
  | stop
  deriving Repr, DecidableEq

/-- The number that bytes denote, most significant first. -/
def ofBigEndian (bs : Bytes) : Nat := bs.foldl (fun n b => 256 * n + b.toNat) 0

/-- So many bytes from the front. -/
def takeBytes (n : Nat) : Reader Bytes := fun bs =>
  if bs.length < n then .error .other else .ok (bs.take n, bs.drop n)

/-- The number of a head of a known width in bytes, with a width of zero for one that stands in
the first byte. -/
structure Argument where
  width : Nat
  value : Nat
  deriving Repr, DecidableEq

/-- The widths of the numbers that follow the first byte of a head. -/
def widthOf? (low : Nat) : Option Nat :=
  match low with
  | 24 => some 1
  | 25 => some 2
  | 26 => some 4
  | 27 => some 8
  | _ => none

/-- The number of a head after its first byte, whose five low bits are given.  Nothing stands for
an open length. -/
def argument (low left : Nat) : Reader (Option Argument) := fun bs =>
  if low < 24 then .ok (some ⟨0, low⟩, bs)
  else if low = 31 then .ok (none, bs)
  else
    match widthOf? low with
    | none => .error (.grammar left)
    | some width =>
        match takeBytes width bs with
        | .error stop => .error stop
        | .ok (number, bs) => .ok (some ⟨width, ofBigEndian number⟩, bs)

/-- The head of a simple value or a number with a fraction. -/
def simpleHead (a : Argument) : Head :=
  match a.width with
  | 2 => .real (.ofBits16 a.value)
  | 4 => .real (.ofBits32 a.value)
  | 8 => .real (.ofBits a.value)
  | _ => .simple a.value

/-- The head of a kind, given by the three high bits of its first byte. -/
def headOf? (kind : Nat) (a : Option Argument) : Option Head :=
  match kind, a with
  | 0, some a => some (.positive a.value)
  | 1, some a => some (.negative a.value)
  | 2, a => some (.bytes (a.map Argument.value))
  | 3, a => some (.text (a.map Argument.value))
  | 4, a => some (.array (a.map Argument.value))
  | 5, a => some (.map (a.map Argument.value))
  | 6, some a => some (.tag a.value)
  | 7, some a => some (simpleHead a)
  | 7, none => some .stop
  | _, _ => none

/-- The head at the front of the bytes. -/
def head : Reader Head
  | [] => .error .other
  | b :: bs =>
      -- faults of a head lie at its first byte
      let left := bs.length + 1
      match argument (b.toNat % 32) left bs with
      | .error stop => .error stop
      | .ok (a, bs) =>
          match headOf? (b.toNat / 32) a with
          | none => .error (.grammar left)
          | some h => .ok (h, bs)

/-- The least number of bytes after the first one that a head with this number needs. -/
def leastWidth (n : Nat) : Nat :=
  if n < 24 then 0
  else if n < 0x100 then 1
  else if n < 0x10000 then 2
  else if n < 0x100000000 then 4
  else 8

/-- The bytes left at the place that is reported for a text: as many before its contents as its
head takes in its shortest form. -/
def leftOf (length : Option Nat) (bs : Bytes) : Nat :=
  bs.length + 1 + ((length.map leastWidth).getD 0)

/-! ### Texts and bytes -/

/-- The greatest number of bytes that are taken into a text at once. -/
def chunkSize : Nat := 4096

/-- `n` bytes of text, taken in chunks; `cut` holds the bytes of a character that the chunk before
ended within. -/
def chunks (left : Nat) : (fuel : Nat) → (cut : Bytes) → (n : Nat) → Reader (List Char)
  | 0, _, _, _ => .error .other
  | fuel + 1, cut, n, bs =>
      if n = 0 then
        if cut.isEmpty then .ok ([], bs) else .error (.grammar left)
      else
        -- the bytes that were cut off take up room of the next chunk
        let size := min n (chunkSize - cut.length)
        match takeBytes size bs with
        | .error stop => .error stop
        | .ok (chunk, bs) =>
            let (cs, cut) := Utf8.decode (cut ++ chunk)
            -- bytes that begin a character are no fault yet: the next chunk may go on with it
            if !cut.isEmpty && Utf8.step cut = .invalid then .error (.grammar left)
            else
              match chunks left fuel cut (n - size) bs with
              | .error stop => .error stop
              | .ok (more, bs) => .ok (cs ++ more, bs)

/-- A text of a known length. -/
def textChunk (left n : Nat) : Reader (List Char) := fun bs =>
  chunks left (bs.length + 2) [] n bs

/-- A string of bytes of a known length. -/
def bytesChunk (_left n : Nat) : Reader Bytes := takeBytes n

/-- The segments up to the stop that closes the outermost of `nested` open lengths.  `lengthOf`
tells the length of a head of the right kind. -/
def segments {α : Type} (lengthOf : Head → Option (Option Nat))
    (chunk : Nat → Nat → Reader (List α)) : (fuel nested : Nat) → Reader (List α)
  | 0, _, _ => .error .other
  | fuel + 1, nested, bs =>
      match head bs with
      | .error stop => .error stop
      | .ok (.stop, rest) =>
          if nested ≤ 1 then .ok ([], rest) else segments lengthOf chunk fuel (nested - 1) rest
      | .ok (h, rest) =>
          match lengthOf h with
          | none => .error (.grammar bs.length)
          -- an open length within an open length has a stop of its own
          | some none => segments lengthOf chunk fuel (nested + 1) rest
          | some (some n) =>
              match chunk bs.length n rest with
              | .error stop => .error stop
              | .ok (xs, rest) =>
                  match segments lengthOf chunk fuel nested rest with
                  | .error stop => .error stop
                  | .ok (ys, rest) => .ok (xs ++ ys, rest)

/-- The length of a text head. -/
def textLength : Head → Option (Option Nat)
  | .text length => some length
  | _ => none

/-- The length of a head of a string of bytes. -/
def bytesLength : Head → Option (Option Nat)
  | .bytes length => some length
  | _ => none

/-- The text that follows its head. -/
def textOf (length : Option Nat) : Reader (List Char) := fun bs =>
  match length with
  | some n => textChunk (leftOf length bs) n bs
  | none => segments textLength textChunk (bs.length + 1) 1 bs

/-- The bytes that follow their head. -/
def bytesOf (length : Option Nat) : Reader Bytes := fun bs =>
  match length with
  | some n => takeBytes n bs
  | none => segments bytesLength bytesChunk (bs.length + 1) 1 bs

/-! ### Large integers -/

/-- The greatest number of bytes of a tagged integer. -/
def integerBytes : Nat := 16

/-- The tag of a natural number that is written as a string of bytes. -/
def positiveTag : Nat := 2

/-- The tag of a negative number that is written as a string of bytes. -/
def negativeTag : Nat := 3

/-- The item that a tagged string of bytes denotes: an integer as long as it fits a head, else the
bytes without leading zeros.  Below `-2 ^ 127` there is no such item. -/
def largeInteger (tag : Nat) (bs : Bytes) : Except Stop Value :=
  let n := ofBigEndian bs
  if tag = negativeTag ∧ 0x80000000000000000000000000000000 ≤ n then .error .other
  else if n < 0x10000000000000000 then
    .ok (.integer (if tag = negativeTag then -1 - (n : Int) else n))
  else .ok (.tagged tag (.bytes (bs.dropWhile (· == 0))))

/-- The length of the string of bytes that makes a tagged item an integer. -/
def integerLength? (tag : Nat) (bs : Bytes) : Option (Nat × Bytes) :=
  if tag = positiveTag ∨ tag = negativeTag then
    match head bs with
    | .ok (.bytes (some n), rest) => if n ≤ integerBytes then some (n, rest) else none
    | _ => none
  else none

/-! ### Items -/

/-- A simple value. -/
def simpleValue (n : Nat) : Except Stop Value :=
  match n with
  | 20 => .ok (.flag false)
  | 21 => .ok (.flag true)
  | 22 => .ok .null
  | 23 => .ok .null
  | _ => .error .other

/-- An item, its head included. -/
def itemBy (after : Head → Reader Value) : Reader Value := fun bs =>
  match head bs with
  | .error stop => .error stop
  | .ok (h, bs) => after h bs

/-- A key with its value, after the head of the key. -/
def entryBy (after : Head → Reader Value) (h : Head) : Reader (Value × Value) := fun bs =>
  match after h bs with
  | .error stop => .error stop
  | .ok (k, bs) =>
      match itemBy after bs with
      | .error stop => .error stop
      | .ok (v, bs) => .ok ((k, v), bs)

/-- So many elements, each read after its head. -/
def exactly {α : Type} (element : Head → Reader α) : (n : Nat) → Reader (List α)
  | 0, bs => .ok ([], bs)
  | n + 1, bs =>
      match head bs with
      | .error stop => .error stop
      | .ok (h, bs) =>
          match element h bs with
          | .error stop => .error stop
          | .ok (x, bs) =>
              match exactly element n bs with
              | .error stop => .error stop
              | .ok (xs, bs) => .ok (x :: xs, bs)

/-- Elements up to a stop, each read after its head. -/
def untilStop {α : Type} (element : Head → Reader α) : (fuel : Nat) → Reader (List α)
  | 0, _ => .error .other
  | fuel + 1, bs =>
      match head bs with
      | .error stop => .error stop
      | .ok (.stop, bs) => .ok ([], bs)
      | .ok (h, bs) =>
          match element h bs with
          | .error stop => .error stop
          | .ok (x, bs) =>
              match untilStop element fuel bs with
              | .error stop => .error stop
              | .ok (xs, bs) => .ok (x :: xs, bs)

/-- The elements of an array or map. -/
def elements {α : Type} (length : Option Nat) (element : Head → Reader α) : Reader (List α) :=
  fun bs =>
    match length with
    | some n => exactly element n bs
    | none => untilStop element (bs.length + 1) bs

/-- Applies a function to the result of a reader. -/
def mapResult {α β : Type} (f : α → β) : Except Stop (α × Bytes) → Except Stop (β × Bytes)
  | .error stop => .error stop
  | .ok (x, bs) => .ok (f x, bs)

/-- The item after its head; arrays, maps and tags are nested at most `depth` deep. -/
def itemAfter : (depth : Nat) → Head → Reader Value
  | _, .positive n, bs => .ok (.integer n, bs)
  | _, .negative n, bs => .ok (.integer (-1 - (n : Int)), bs)
  | _, .bytes length, bs => mapResult .bytes (bytesOf length bs)
  | _, .text length, bs => mapResult (fun cs => .text (String.ofList cs)) (textOf length bs)
  | _, .simple n, bs => (simpleValue n).map fun v => (v, bs)
  | _, .real x, bs => .ok (.real x, bs)
  | _, .stop, _ => .error .other
  | 0, .array _, _ => .error .other
  | 0, .map _, _ => .error .other
  | 0, .tag tag, bs =>
      -- a tagged integer nests nothing, so it may stand at the greatest depth too
      match integerLength? tag bs with
      | none => .error .other
      | some (n, rest) =>
          match takeBytes n rest with
          | .error stop => .error stop
          | .ok (number, rest) => (largeInteger tag number).map fun v => (v, rest)
  | depth + 1, .array length, bs => mapResult .array (elements length (itemAfter depth) bs)
  | depth + 1, .map length, bs => mapResult .map (elements length (entryBy (itemAfter depth)) bs)
  | depth + 1, .tag tag, bs =>
      match integerLength? tag bs with
      | none => mapResult (.tagged tag) (itemBy (itemAfter depth) bs)
      | some (n, rest) =>
          match takeBytes n rest with
          | .error stop => .error stop
          | .ok (number, rest) => (largeInteger tag number).map fun v => (v, rest)

/-- How deep arrays, maps and tags may be nested. -/
def maxDepth : Nat := 256

/-- The item at the front of some bytes. -/
def read (bs : Bytes) : Except Fault Value :=
  match itemBy (itemAfter maxDepth) bs with
  | .ok (v, _) => .ok v
  | .error .other => .error .other
  | .error (.grammar left) => .error (.grammar (bs.length - left))

end Cbor

end SecretResolver
