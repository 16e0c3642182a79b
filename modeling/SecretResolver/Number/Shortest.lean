/-
**The fewest digits that read back.**

A double stands for all reals that round to it.  Its shortest decimal is the one with the fewest
digits among them, and the nearest to the double when several have that number of digits.

Main definitions:

* `Decimal` — digits with a power of ten;
* `Binary64.Span` — the reals that round to a double;
* `Binary64.shortest` — the shortest decimal of a double.
-/

import SecretResolver.Number.Binary64

set_option relaxedAutoImplicit false
set_option autoImplicit false

namespace SecretResolver

/-- The number `digits · 10 ^ exponent`. -/
structure Decimal where
  digits : Nat
  exponent : Int
  deriving Repr, DecidableEq, Inhabited

namespace Binary64

/-- The reals that round to a double, as multiples of `1 / unit`; the ends belong to them exactly
when the mantissa is even. -/
structure Span where
  low : Nat
  value : Nat
  high : Nat
  /-- What the three numbers are multiples of the inverse of. -/
  unit : Nat
  closed : Bool
  deriving Repr, DecidableEq

/-- The span of `m · 2 ^ e`.  Below a power of two the doubles lie twice as dense. -/
def spanOf (m : Nat) (e : Int) : Span :=
  let low := if m = leastFull && leastExponent < e then 4 * m - 1 else 4 * m - 2
  let (one, unit) := scale 1 1 (e - 2)
  ⟨low * one, 4 * m * one, (4 * m + 2) * one, unit, m % 2 == 0⟩

/-- Whether `k / d` lies in the span. -/
def Span.holds (s : Span) (k d : Nat) : Bool :=
  let x := k * s.unit
  if s.closed then s.low * d ≤ x && x ≤ s.high * d else s.low * d < x && x < s.high * d

/-- The number of digits before the point: the least `p` with `value < 10 ^ p`. -/
def Span.magnitude (s : Span) : Int :=
  -- 1233 / 4096 is nearly the logarithm of two to the base of ten, so `p` is short by one at most
  let p := (log2Ratio s.value s.unit * 1233).fdiv 4096 + 1
  let reached : Bool :=
    if 0 ≤ p then s.unit * Nat.pow 10 p.toNat ≤ s.value
    else s.unit ≤ s.value * Nat.pow 10 (-p).toNat
  if reached then p + 1 else p

/-- The decimal with the last digit at `10 ^ e` that lies in the span and nearest to its value, if
there is one.  Of two equally near the even one counts. -/
def Span.onGrid (s : Span) (e : Int) : Option Decimal :=
  let (up, down) : Nat × Nat :=
    if 0 ≤ e then (1, Nat.pow 10 e.toNat) else (Nat.pow 10 (-e).toNat, 1)
  let n := s.value * up
  let d := s.unit * down
  let q := n / d
  let r := n % d
  let below := s.holds (q * down) up
  let above := s.holds ((q + 1) * down) up
  match below, above with
  | false, false => none
  | true, false => some ⟨q, e⟩
  | false, true => some ⟨q + 1, e⟩
  | true, true => if 2 * r < d || (2 * r == d && q % 2 == 0) then some ⟨q, e⟩ else some ⟨q + 1, e⟩

/-- A decimal without a zero at its end. -/
def trimZeros : Nat → Decimal → Decimal
  | 0, x => x
  | fuel + 1, x =>
      if x.digits ≠ 0 ∧ x.digits % 10 = 0 then trimZeros fuel ⟨x.digits / 10, x.exponent + 1⟩ else x

/-- The shortest decimal of `m · 2 ^ e`; seventeen digits always suffice. -/
def shortest (m : Nat) (e : Int) : Decimal :=
  if m = 0 then ⟨0, 0⟩
  else
    let s := spanOf m e
    let p := s.magnitude
    -- the coarsest grid comes first, so what is found has the fewest digits
    let found := (List.range 17).findSome? fun (i : Nat) => s.onGrid (p - (i + 1))
    trimZeros 20 (found.getD ⟨m, 0⟩)

end Binary64

end SecretResolver
