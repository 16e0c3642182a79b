/-
**Double precision numbers, exactly.**

A `Binary64` is a sign with a mantissa and a power of two, an infinity, or no number.  Every
operation is carried out on fractions of natural numbers and rounded once, to the nearest double
and to an even mantissa when two are equally near, so nothing depends on floating point hardware.

Main definitions:

* `Binary64`, `Binary64.ofBits`, `Binary64.ofBits32`, `Binary64.ofBits16`;
* `Binary64.ofRatio` — the double nearest to a fraction;
* `Binary64.ofDecimal` — the double nearest to a decimal;
* `Binary64.product`, `Binary64.quotient` — one rounded product or quotient;
* `Binary64.sameNumber`, `Binary64.roundToNat`.
-/

set_option relaxedAutoImplicit false
set_option autoImplicit false

namespace SecretResolver

/-- A double precision number. -/
inductive Binary64 where
  /-- The number `mantissa · 2 ^ exponent`, negated if the sign says so. -/
  | finite (negative : Bool) (mantissa : Nat) (exponent : Int)
  | infinite (negative : Bool)
  | nan
  deriving Repr, DecidableEq, Inhabited

namespace Binary64

/-- The least exponent of a mantissa's last bit. -/
def leastExponent : Int := -1074

/-- The greatest exponent of a mantissa's last bit. -/
def greatestExponent : Int := 971

/-- Zero with a sign. -/
def zero (negative : Bool) : Binary64 := .finite negative 0 leastExponent

/-! ### Rounding -/

/-- `n · 2 ^ e` as a fraction, the power on the side where it is a natural number. -/
def scale (n d : Nat) (e : Int) : Nat × Nat :=
  if 0 ≤ e then (n <<< e.toNat, d) else (n, d <<< (-e).toNat)

/-- The greatest `k` with `2 ^ k ≤ n / d`, for `n` and `d` not zero. -/
def log2Ratio (n d : Nat) : Int :=
  let k : Int := (Nat.log2 n : Int) - Nat.log2 d
  let (a, b) := scale n d (-k)
  if a < b then k - 1 else k

/-- The natural number nearest to `n / d`, an even one when two are equally near. -/
def roundHalfEven (n d : Nat) : Nat :=
  let q := n / d
  let r := n % d
  if 2 * r < d then q
  else if d < 2 * r then q + 1
  else if q % 2 = 0 then q else q + 1

/-- The least mantissa of 53 bits. -/
def leastFull : Nat := 0x10000000000000

/-- The double nearest to `n / d`. -/
def ofRatio (negative : Bool) (n d : Nat) : Binary64 :=
  if n = 0 then zero negative
  else
    -- 53 bits are kept, or fewer where the least exponent ends them
    let e := max (log2Ratio n d - 52) leastExponent
    let (a, b) := scale n d (-e)
    let m := roundHalfEven a b
    -- rounding up may carry into one more bit
    let (m, e) := if m = 2 * leastFull then (leastFull, e + 1) else (m, e)
    if greatestExponent < e then .infinite negative else .finite negative m e

/-- The double nearest to a natural number. -/
def ofNat (n : Nat) : Binary64 := ofRatio false n 1

/-- The double nearest to `digits · 10 ^ exponent`. -/
def ofDecimal (negative : Bool) (digits : Nat) (exponent : Int) : Binary64 :=
  if digits = 0 then zero negative
  else
    let width : Int := (Nat.toDigits 10 digits).length
    -- a number far out of range is told by its digits, without forming the power
    if 310 < width + exponent then .infinite negative
    else if width + exponent < -330 then zero negative
    else if 0 ≤ exponent then ofRatio negative (digits * Nat.pow 10 exponent.toNat) 1
    else ofRatio negative digits (Nat.pow 10 (-exponent).toNat)

/-! ### Arithmetic -/

/-- The rounded product of two numbers that are not negative. -/
def product : Binary64 → Binary64 → Binary64
  | .finite _ m e, .finite _ m' e' =>
      let (a, b) := scale (m * m') 1 (e + e')
      ofRatio false a b
  | .nan, _ => .nan
  | _, .nan => .nan
  | _, _ => .infinite false

/-- The rounded quotient of two numbers that are not negative. -/
def quotient : Binary64 → Binary64 → Binary64
  | .finite _ m e, .finite _ m' e' =>
      let (a, b) := scale m m' (e - e')
      ofRatio false a b
  | .infinite s, .finite .. => .infinite s
  | .finite .., .infinite _ => zero false
  | _, _ => .nan

/-- The number with the other sign. -/
def negate : Binary64 → Binary64
  | .finite s m e => .finite (!s) m e
  | .infinite s => .infinite (!s)
  | .nan => .nan

/-- Whether the number has a value. -/
def isFinite : Binary64 → Bool
  | .finite .. => true
  | _ => false

/-- Whether the number is a zero of either sign. -/
def isZero : Binary64 → Bool
  | .finite _ m _ => m == 0
  | _ => false

/-- Equality of values: the two zeros are the same and so is no number with itself. -/
def sameNumber (x y : Binary64) : Bool := x == y || (x.isZero && y.isZero)

/-- The nearest natural number, a half going up, held between zero and `top`; zero for no number. -/
def roundToNat (top : Nat) : Binary64 → Nat
  | .finite true _ _ => 0
  | .finite false m e =>
      let (a, b) := scale m 1 e
      min top ((2 * a + b) / (2 * b))
  | .infinite true => 0
  | .infinite false => top
  | .nan => 0

/-! ### Bit patterns -/

/-- The number of a pattern of sign, exponent and fraction, with the given widths. -/
def ofFields (exponentBits fractionBits : Nat) (bits : Nat) : Binary64 :=
  let fractions := Nat.pow 2 fractionBits
  let exponents := Nat.pow 2 exponentBits
  let fraction := bits % fractions
  let exponent := bits / fractions % exponents
  let negative := bits / (fractions * exponents) % 2 == 1
  let bias : Int := (exponents / 2 - 1 : Nat)
  if exponent = exponents - 1 then
    if fraction = 0 then .infinite negative else .nan
  else
    let (m, e) :=
      -- the leading bit is implicit unless the exponent is the least one
      if exponent = 0 then (fraction, 1 - bias - fractionBits)
      else (fraction + fractions, (exponent : Int) - bias - fractionBits)
    let (a, b) := scale m 1 e
    ofRatio negative a b

/-- The number of a 64-bit pattern. -/
def ofBits (bits : Nat) : Binary64 := ofFields 11 52 bits

/-- The number of a 32-bit pattern. -/
def ofBits32 (bits : Nat) : Binary64 := ofFields 8 23 bits

/-- The number of a 16-bit pattern. -/
def ofBits16 (bits : Nat) : Binary64 := ofFields 5 10 bits

end Binary64

end SecretResolver
