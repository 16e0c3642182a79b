/-
**What plain scalars denote.**

A plain scalar may stand for no value, a truth value, an integer or a double; everything else is
text.  Integers are decimal without leading zeros, or hexadecimal, octal or binary after `0x`, `0o`
or `0b`; those beyond 64 bits are no values as long as they fit 128 bits, and doubles beyond that.

Main definitions:

* `Yaml.Scalar` — the values;
* `Yaml.isNull`, `Yaml.flag?`, `Yaml.integer?`, `Yaml.real?`;
* `Yaml.scalarOf?` — the value of a plain scalar.
-/

import SecretResolver.Number.Layout
import SecretResolver.Number.Numeral

set_option relaxedAutoImplicit false
set_option autoImplicit false

namespace SecretResolver

namespace Yaml

/-- The value of a scalar. -/
inductive Scalar where
  | null
  | flag (b : Bool)
  | integer (n : Int)
  | real (x : Binary64)
  | text (s : String)
  deriving Repr, DecidableEq

/-! ### No value and truth values -/

/-- Whether a text says that there is no value. -/
def isNull (s : String) : Bool := s ∈ ["null", "Null", "NULL", "~"]

/-- The truth value that a text denotes. -/
def flag? (s : String) : Option Bool :=
  if s ∈ ["true", "True", "TRUE"] then some true
  else if s ∈ ["false", "False", "FALSE"] then some false
  else none

/-! ### Integers -/

/-- Whether a text is a decimal integer with a zero in front, which is a text. -/
def hasLeadingZero (cs : List Char) : Bool :=
  match (Numeral.sign cs).2 with
  | '0' :: c :: cs => (c :: cs).all Text.isDigit
  | _ => false

/-- The base that an integer is written in, and its digits. -/
def based : List Char → Nat × List Char
  | '0' :: 'x' :: cs => (16, cs)
  | '0' :: 'o' :: cs => (8, cs)
  | '0' :: 'b' :: cs => (2, cs)
  | cs => (10, cs)

/-- The integer that a text denotes, whatever its size. -/
def integer? (s : String) : Option Int :=
  let cs := s.toList
  if hasLeadingZero cs then none
  else
    let (negative, cs) := Numeral.sign cs
    let (base, cs) := based cs
    (Numeral.digits? base cs).map (Numeral.signed negative)

/-! ### Doubles -/

/-- The double that a decimal text denotes, if there is a finite one. -/
def finite? (cs : List Char) : Option Binary64 :=
  let (negative, cs) := Numeral.sign cs
  match Numeral.decimal? cs with
  | none => none
  | some (n, e) =>
      let x := Binary64.ofDecimal negative n e
      if x.isFinite then some x else none

/-- The double that a text denotes. -/
def real? (s : String) : Option Binary64 :=
  if s ∈ [".inf", ".Inf", ".INF", "+.inf", "+.Inf", "+.INF"] then some (.infinite false)
  else if s ∈ ["-.inf", "-.Inf", "-.INF"] then some (.infinite true)
  else if s ∈ [".nan", ".NaN", ".NAN"] then some .nan
  else finite? s.toList

/-! ### Resolution -/

/-- Whether an integer has 64 bits, signed or not. -/
def isWord (n : Int) : Bool := -0x8000000000000000 ≤ n && n < 0x10000000000000000

/-- Whether an integer has 128 bits, signed or not. -/
def isDoubleWord (n : Int) : Bool :=
  -0x80000000000000000000000000000000 ≤ n && n < 0x100000000000000000000000000000000

/-- The value of a plain scalar that is neither nothing nor a truth value nor an integer. -/
def realOrText (s : String) : Scalar :=
  if hasLeadingZero s.toList then .text s
  else
    match real? s with
    | some x => .real x
    | none => .text s

/-- The value of a plain scalar, unless it is an integer that is none. -/
def scalarOf? (s : String) : Option Scalar :=
  if s.isEmpty || isNull s then some .null
  else
    match flag? s with
    | some b => some (.flag b)
    | none =>
        match integer? s with
        | some n =>
            -- beyond 64 bits there is no integer: up to 128 bits no value either, and then doubles
            if isWord n then some (.integer n)
            else if isDoubleWord n then none
            else some (realOrText s)
        | none => some (realOrText s)

end Yaml

end SecretResolver
