/-
**Reading JSON of a known shape.**

Where the shape of a text is known, it is read straight into the wanted type.  A value of another
shape is a fault of its own kind; where it lies depends on how much was used up before the shape
was found to be wrong: a scalar completely, an array or object not at all.  Records may be written
as objects, in any order and with members that are passed over, or as arrays in field order.

Main definitions:

* `Json.skipValue` — passes over any value;
* `Json.typedText`, `Json.typedNatural`, `Json.typedFlag`, `Json.typedTexts`;
* `Json.Field`, `Json.record` — records of such fields.
-/

import SecretResolver.Json.Reader

set_option relaxedAutoImplicit false
set_option autoImplicit false

namespace SecretResolver

namespace Json

universe u

/-! ### Passing over values -/

/-- A text that is passed over, up to its closing quote. -/
def skipQuoted : Nat → Bytes → Except Fault Bytes
  | 0, bs => faultAfter .ended bs
  | _ + 1, [] => faultAfter .ended []
  | _ + 1, 34 :: rest => .ok rest
  | _ + 1, [92] => faultAfter .ended []
  | fuel + 1, 92 :: 117 :: rest =>
      match hexUnit rest with
      | .error fault => .error fault
      | .ok (_, rest) => skipQuoted fuel rest
  | fuel + 1, 92 :: b :: rest =>
      if (escapeLetter? b).isSome then skipQuoted fuel rest else faultAfter .grammar rest
  | fuel + 1, b :: rest => if b < 32 then faultAfter .grammar (b :: rest) else skipQuoted fuel rest

/-- An exponent that is passed over, after its letter. -/
def skipExponent (bs : Bytes) : Except Fault Bytes :=
  let bs :=
    match bs with
    | 43 :: rest => rest
    | 45 :: rest => rest
    | bs => bs
  match bs with
  | [] => faultAfter .grammar []
  | b :: rest => if isDigit b then .ok (digits rest).2 else faultAfter .grammar rest

/-- A fraction or an exponent that is passed over, if there is one. -/
def skipNumberTail : Bytes → Except Fault Bytes
  | 46 :: bs =>
      match digits bs with
      | ([], rest) => faultAt .grammar rest
      | (_ :: _, 101 :: rest) => skipExponent rest
      | (_ :: _, 69 :: rest) => skipExponent rest
      | (_ :: _, rest) => .ok rest
  | 101 :: bs => skipExponent bs
  | 69 :: bs => skipExponent bs
  | bs => .ok bs

/-- A number that is passed over, after its sign. -/
def skipNumber : Bytes → Except Fault Bytes
  | [] => faultAfter .grammar []
  | 48 :: bs =>
      match bs with
      | b :: _ => if isDigit b then faultAt .grammar bs else skipNumberTail bs
      | [] => skipNumberTail bs
  | b :: bs => if isDigit b then skipNumberTail (digits bs).2 else faultAfter .grammar bs

/-- A scalar that is passed over, after its first byte. -/
def skipScalar (b : UInt8) (bs : Bytes) : Except Fault Bytes :=
  match b with
  | 110 => (word () nullTail bs).map Prod.snd
  | 116 => (word () trueTail bs).map Prod.snd
  | 102 => (word () falseTail bs).map Prod.snd
  | 34 => skipQuoted (bs.length + 1) bs
  | 45 => skipNumber bs
  | b => if isDigit b then skipNumber (b :: bs) else faultAt .grammar (b :: bs)

/-- The name and the colon of a member that is passed over. -/
def skipName (bs : Bytes) : Except Fault Bytes :=
  match skipBlanks bs with
  | [] => faultAt .ended []
  | 34 :: bs =>
      match skipQuoted (bs.length + 1) bs with
      | .error fault => .error fault
      | .ok bs => colon bs
  | bs => faultAt .grammar bs

/-- What is open around the place where a value is passed over. -/
inductive Bracket where
  | square
  | curly
  deriving Repr, DecidableEq

/-- The byte that closes a bracket. -/
def Bracket.closing : Bracket → UInt8
  | .square => 93
  | .curly => 125

/-- What is expected while values are passed over. -/
inductive Expected where
  | value
  /-- The first value of an array or the first member of an object, or its end. -/
  | first
  | next
  deriving Repr, DecidableEq

/-- Passes over what is expected and over everything that is still open, innermost first. -/
def skipOpen : (fuel : Nat) → List Bracket → Expected → Bytes → Except Fault Bytes
  | 0, _, _, bs => faultAfter .ended bs
  | fuel + 1, open_, .value, bs =>
      match skipBlanks bs with
      | [] => faultAt .ended []
      | 91 :: bs => skipOpen fuel (.square :: open_) .first bs
      | 123 :: bs => skipOpen fuel (.curly :: open_) .first bs
      | b :: bs =>
          match skipScalar b bs with
          | .error fault => .error fault
          | .ok bs => skipOpen fuel open_ .next bs
  | _ + 1, [], _, bs => .ok bs
  | fuel + 1, bracket :: open_, expected, bs =>
      let member (bs : Bytes) : Except Fault Bytes :=
        match bracket with
        | .square => skipOpen fuel (bracket :: open_) .value bs
        | .curly =>
            match skipName bs with
            | .error fault => .error fault
            | .ok bs => skipOpen fuel (bracket :: open_) .value bs
      match skipBlanks bs with
      | [] => faultAt .ended []
      | b :: bs =>
          if b == bracket.closing then skipOpen fuel open_ .next bs
          else
            match expected with
            | .next => if b == 44 then member bs else faultAt .grammar (b :: bs)
            | _ => member (b :: bs)

/-- Passes over a value. -/
def skipValue (bs : Bytes) : Except Fault Bytes := skipOpen (2 * bs.length + 2) [] .value bs

/-! ### Scalars of a known shape -/

/-- The fault of a value of the wrong shape; scalars must be correct up to their end. -/
def wrongShape {α : Type u} : Bytes → Except Fault α
  | [] => faultAt .ended []
  | 91 :: bs => faultAfter .shape (91 :: bs)
  | 123 :: bs => faultAfter .shape (123 :: bs)
  | b :: bs =>
      match scalarAfter? b bs with
      | none => faultAt .grammar (b :: bs)
      | some (.error fault) => .error fault
      | some (.ok (_, bs)) => faultAfter .shape bs

/-- A text. -/
def typedText : Reader String := fun bs =>
  match skipBlanks bs with
  | 34 :: bs => text bs
  | bs => wrongShape bs

/-- A truth value. -/
def typedFlag : Reader Bool := fun bs =>
  match skipBlanks bs with
  | 116 :: bs => word true trueTail bs
  | 102 :: bs => word false falseTail bs
  | bs => wrongShape bs

/-- A natural number of 64 bits. -/
def typedNatural : Reader Nat := fun bs =>
  match skipBlanks bs with
  | 45 :: bs =>
      match number true bs with
      | .error fault => .error fault
      | .ok (_, bs) => faultAfter .shape bs
  | bs =>
      match bs with
      | b :: _ =>
          if isDigit b then
            match number false bs with
            | .error fault => .error fault
            | .ok (.integer n, bs) => .ok (n.toNat, bs)
            | .ok (.real _, bs) => faultAfter .shape bs
          else wrongShape bs
      | [] => wrongShape []

/-- A list of texts. -/
def typedTexts : Reader (List String) := fun bs =>
  match skipBlanks bs with
  | 91 :: bs => items typedText (bs.length + 1) true bs
  | bs => wrongShape bs

/-! ### Records -/

/-- A field of a record that is gathered in a `σ`. -/
structure Field (σ : Type u) where
  name : String
  isSet : σ → Bool
  read : σ → Reader σ

/-- The bytes after the end of an array or object, or as near to it as only blanks lie between. -/
def skipClosing (bracket : Bracket) (bs : Bytes) : Bytes :=
  match skipBlanks bs with
  | b :: rest =>
      if b == bracket.closing then rest
      else if b == 44 then skipBlanks rest
      else b :: rest
  | [] => []

/-- The fault of a record that lacks something or has it twice. -/
def wrongRecord {α : Type u} (bracket : Bracket) (bs : Bytes) : Except Fault α :=
  faultAfter .shape (skipClosing bracket bs)

variable {σ δ : Type u}

/-- The fields of a record written as an object. -/
def recordMembers (fields : List (Field σ)) : (fuel : Nat) → (first : Bool) → σ → Reader σ
  | 0, _, _, bs => faultAfter .ended bs
  | fuel + 1, first, r, bs =>
      match memberName? first bs with
      | .error fault => .error fault
      | .ok (none, _) => .ok (r, bs)
      | .ok (some name, bs) =>
          match fields.find? fun f => f.name == name with
          | some f =>
              if f.isSet r then wrongRecord .curly bs
              else
                match colon bs with
                | .error fault => .error fault
                | .ok bs =>
                    match f.read r bs with
                    | .error fault => .error fault
                    | .ok (r, bs) => recordMembers fields fuel false r bs
          | none =>
              match colon bs with
              | .error fault => .error fault
              | .ok bs =>
                  match skipValue bs with
                  | .error fault => .error fault
                  | .ok bs => recordMembers fields fuel false r bs

/-- The comma between two items of an array; nothing at the closing bracket, which stays. -/
def itemAhead (first : Bool) (bs : Bytes) : Except Fault (Option Bytes) :=
  match skipBlanks bs with
  | [] => faultAt .ended []
  | 93 :: _ => .ok none
  | b :: bs =>
      if first then .ok (some (b :: bs))
      else if b == 44 then
        match skipBlanks bs with
        | [] => faultAt .ended []
        | 93 :: bs => faultAt .grammar (93 :: bs)
        | bs => .ok (some bs)
      else faultAt .grammar (b :: bs)

/-- The fields of a record written as an array; it may end early. -/
def recordItems : List (Field σ) → (first : Bool) → σ → Reader σ
  | [], _, r, bs => .ok (r, bs)
  | f :: fields, first, r, bs =>
      match itemAhead first bs with
      | .error fault => .error fault
      | .ok none => .ok (r, bs)
      | .ok (some bs) =>
          match f.read r bs with
          | .error fault => .error fault
          | .ok (r, bs) => recordItems fields false r bs

/-- The end of an array or object of which everything wanted has been read. -/
def closing (bracket : Bracket) (bs : Bytes) : Except Fault Bytes :=
  match skipBlanks bs with
  | [] => faultAt .ended []
  | b :: bs =>
      if b == bracket.closing then .ok bs
      else if b == 44 then faultAt .grammar (skipBlanks bs)
      else faultAt .grammar (b :: bs)

/-- The record that has been gathered, once its end is reached. -/
def finishRecord (bracket : Bracket) (finish : σ → Option δ) :
    Except Fault (σ × Bytes) → Except Fault (δ × Bytes)
  | .error fault => .error fault
  | .ok (r, bs) =>
      match finish r with
      | none => wrongRecord bracket bs
      | some x =>
          match closing bracket bs with
          | .error fault => .error fault
          | .ok bs => .ok (x, bs)

/-- A record with some fields, gathered from `start` on; `finish` fails if one is missing that has
no default. -/
def record (fields : List (Field σ)) (start : σ) (finish : σ → Option δ) : Reader δ := fun bs =>
  match skipBlanks bs with
  | 91 :: bs => finishRecord .square finish (recordItems fields true start bs)
  | 123 :: bs =>
      finishRecord .curly finish (recordMembers fields (bs.length + 1) true start bs)
  | bs => wrongShape bs

end Json

end SecretResolver
