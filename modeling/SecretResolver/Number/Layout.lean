/-
**Writing numbers.**

The digits of a double are the shortest that read back; how they are laid out is for each format
to say.  A `FloatStyle` holds these decisions, and one function writes a number after them.

Main definitions:

* `Scientific`, `FloatStyle` — the decisions;
* `FloatStyle.write` — the text of a double.
-/

import SecretResolver.Number.Shortest

set_option relaxedAutoImplicit false
set_option autoImplicit false

namespace SecretResolver

/-- When and how a number is written with an exponent. -/
structure Scientific where
  /-- The least number of digits before the point that is written without an exponent; a negative
  one counts the zeros behind the point. -/
  least : Int
  /-- The greatest number of digits before the point that is written without an exponent. -/
  greatest : Int
  plus : Bool
  deriving Repr, DecidableEq

/-- How a format writes doubles. -/
structure FloatStyle where
  /-- Whether a whole number ends in `.0`. -/
  pointZero : Bool
  scientific : Option Scientific
  above : String
  below : String
  nan : String
  deriving Repr, DecidableEq

namespace FloatStyle

/-- So many zeros. -/
def zeros (n : Nat) : String := String.ofList (List.replicate n '0')

/-- Digits with a point after the first `before` ones, filled up with zeros on either side. -/
def positional (s : FloatStyle) (digits : String) (before : Int) : String :=
  if before ≤ 0 then "0." ++ zeros (-before).toNat ++ digits
  else if (digits.length : Int) ≤ before then
    digits ++ zeros (before.toNat - digits.length) ++ (if s.pointZero then ".0" else "")
  else
    String.ofList (digits.toList.take before.toNat) ++ "." ++
      String.ofList (digits.toList.drop before.toNat)

/-- Digits with a point after the first one, and an exponent. -/
def exponential (plus : Bool) (digits : String) (before : Int) : String :=
  let head := String.ofList (digits.toList.take 1)
  let tail := String.ofList (digits.toList.drop 1)
  let e := before - 1
  head ++ (if tail.isEmpty then "" else "." ++ tail) ++ "e" ++
    (if plus && 0 ≤ e then "+" else "") ++ toString e

/-- The text of a decimal that is not negative. -/
def decimal (s : FloatStyle) (x : Decimal) : String :=
  if x.digits = 0 then (if s.pointZero then "0.0" else "0")
  else
    let digits := toString x.digits
    let before : Int := digits.length + x.exponent
    match s.scientific with
    | none => positional s digits before
    | some f =>
        if f.least ≤ before && before ≤ f.greatest then positional s digits before
        else exponential f.plus digits before

/-- The text of a double. -/
def write (s : FloatStyle) : Binary64 → String
  | .finite negative m e => (if negative then "-" else "") ++ s.decimal (Binary64.shortest m e)
  | .infinite false => s.above
  | .infinite true => s.below
  | .nan => s.nan

/-- Digits and a point, never an exponent, whole numbers without a point. -/
def plain : FloatStyle := ⟨false, none, "inf", "-inf", "NaN"⟩

/-- Digits and a point, never an exponent; whole numbers end in `.0`. -/
def pointed : FloatStyle := ⟨true, none, "inf", "-inf", "NaN"⟩

/-- Exponents from `1e16` on and below `1e-5`; whole numbers end in `.0`. -/
def compact : FloatStyle := ⟨true, some ⟨-4, 16, false⟩, ".inf", "-.inf", ".nan"⟩

/-- The same with a sign before every exponent above zero. -/
def signedExponent : FloatStyle := ⟨true, some ⟨-4, 16, true⟩, "inf", "-inf", "NaN"⟩

end FloatStyle

end SecretResolver
