/-
**Numerals.**

The numbers that texts denote, each rule by itself: digits of a base, a sign, a decimal number with
fraction and exponent.  Formats put them together in their own ways; what is here in full are the
numerals of configuration texts.

Main definitions:

* `Numeral.digits?`, `Numeral.sign`, `Numeral.exponent?`, `Numeral.decimal?` — the parts;
* `Numeral.integer?`, `Numeral.real?` — signed decimal integers, and doubles.
-/

import SecretResolver.Number.Binary64
import SecretResolver.Text.Split

set_option relaxedAutoImplicit false
set_option autoImplicit false

namespace SecretResolver

namespace Numeral

/-! ### Parts -/

/-- The value of a digit in a base up to sixteen. -/
def digit? (base : Nat) (c : Char) : Option Nat :=
  (Text.hexDigit? c).filter (· < base)

/-- The number that at least one digit denotes. -/
def digits? (base : Nat) (cs : List Char) : Option Nat :=
  if cs.isEmpty then none
  else cs.foldl (fun n c => n.bind fun n => (digit? base c).map fun d => base * n + d) (some 0)

/-- A sign before a number: whether it is a minus, and what follows. -/
def sign : List Char → Bool × List Char
  | '-' :: cs => (true, cs)
  | '+' :: cs => (false, cs)
  | cs => (false, cs)

/-- A number with its sign. -/
def signed (negative : Bool) (n : Nat) : Int := if negative then -(n : Int) else n

/-- What follows an exponent's letter: its value. -/
def exponent? (cs : List Char) : Option Int :=
  let (negative, ds) := sign cs
  if Text.isDigits ds then some (signed negative (Text.ofDigits ds)) else none

/-- A decimal number without a sign: its digits and a power of ten. -/
def decimal? (cs : List Char) : Option (Nat × Int) :=
  let whole := cs.takeWhile Text.isDigit
  let rest := cs.dropWhile Text.isDigit
  let (fraction, rest) :=
    match rest with
    | '.' :: rest => (rest.takeWhile Text.isDigit, rest.dropWhile Text.isDigit)
    | rest => ([], rest)
  if whole.isEmpty && fraction.isEmpty then none
  else
    let number (e : Int) : Option (Nat × Int) :=
      some (Text.ofDigits (whole ++ fraction), e - fraction.length)
    match rest with
    | [] => number 0
    | c :: rest => if c == 'e' || c == 'E' then (exponent? rest).bind number else none

/-! ### Whole numerals -/

/-- Whether an integer has 64 bits with a sign. -/
def isSignedWord (n : Int) : Bool := -0x8000000000000000 ≤ n && n < 0x8000000000000000

/-- The greatest number of 64 bits. -/
def greatestWord : Nat := 0xFFFFFFFFFFFFFFFF

/-- The integer of 64 bits that a decimal text denotes. -/
def integer? (s : String) : Option Int :=
  let (negative, ds) := sign s.toList
  ((Text.readNat ds).map (signed negative)).filter isSignedWord

/-- The number of 64 bits without a minus that a decimal text denotes. -/
def natural? (s : String) : Option Nat :=
  let ds :=
    match s.toList with
    | '+' :: ds => ds
    | ds => ds
  (Text.readNat ds).filter (· ≤ greatestWord)

/-- The double that a text denotes, be it finite, an infinity or no number. -/
def real? (s : String) : Option Binary64 :=
  let (negative, cs) := sign s.toList
  let word := Text.lowerAscii (String.ofList cs)
  if word == "inf" || word == "infinity" then some (.infinite negative)
  else if word == "nan" then some .nan
  else (decimal? cs).map fun (n, e) => Binary64.ofDecimal negative n e

end Numeral

end SecretResolver
