/-
**Integers of any size in CBOR.**

An integer of 64 bits and a sign stands in its head.  Any other one is written as a tagged string of
bytes, and so may smaller ones be; it is an integer again if it has at most 16 bytes and its number
has 64 bits.  Else the bytes are kept, which may well be some text, but never the digits of the
integer: digits are denoted by smaller numbers than the bytes that they are written with.

Main definitions:

* `Cbor.writeInteger`, `Cbor.writeLarge`, `Cbor.largeNumber` — integers as they are encoded;
* `Cbor.writeField` — a map with one entry.

Main results:

* `Cbor.item_writeInteger`, `Cbor.item_writeLarge` — integers at any place;
* `Cbor.text?_ne_digits` — **the bytes of an integer are not its digits**;
* `Cbor.read_writeField` — a map with one entry is read.
-/

import SecretResolver.Proofs.Cbor.Written
import SecretResolver.Proofs.Interchange.AsJson

set_option relaxedAutoImplicit false
set_option autoImplicit false

namespace SecretResolver

namespace Cbor

open Interchange (onward digitBytes)

/-! ### Encoding -/

/-- An integer in a head. -/
def writeInteger (n : Int) : Bytes :=
  if 0 ≤ n then writeHead 0 n.toNat else writeHead 1 (-1 - n).toNat

/-- The tag of a string of bytes that is an integer. -/
def largeTag (negative : Bool) : Nat := if negative then negativeTag else positiveTag

/-- A tagged string of bytes. -/
def writeLarge (negative : Bool) (bs : Bytes) : Bytes :=
  writeHead 6 (largeTag negative) ++ (writeHead 2 bs.length ++ bs)

/-- The integer that a tagged string of bytes denotes. -/
def largeNumber (negative : Bool) (bs : Bytes) : Int :=
  if negative then -1 - (ofBigEndian bs : Int) else ofBigEndian bs

/-- A map with one entry. -/
def writeField (name : String) (item : Bytes) : Bytes :=
  writeHead 5 1 ++ (writeText name ++ item)

variable {n : Int} {negative : Bool} {bs rest : Bytes} {depth : Nat}

/-! ### Integers -/

/-- **An integer in a head** is read, wherever it stands. -/
theorem item_writeInteger (hlow : -2 ^ 64 ≤ n) (hhigh : n < 2 ^ 64) (rest : Bytes) :
    itemBy (itemAfter depth) (writeInteger n ++ rest) = .ok (.integer n, rest) := by
  rw [writeInteger]
  split
  · rename_i hn
    have hhead := head_writeHead 0 rest (by decide) (show n.toNat < 2 ^ 64 by omega) rfl
    rw [itemBy, hhead]
    cases depth <;> simp [itemAfter, hn]
  · rename_i hn
    have hhead := head_writeHead 1 rest (by decide) (show (-1 - n).toNat < 2 ^ 64 by omega) rfl
    have hvalue : -1 - ((-1 - n).toNat : Int) = n := by omega
    have hitem : itemAfter depth (.negative (-1 - n).toNat) rest =
        .ok (.integer (-1 - ((-1 - n).toNat : Int)), rest) := by cases depth <;> rfl
    rw [itemBy, hhead]
    exact hitem.trans (by rw [hvalue])

/-- What a tagged string of bytes is read as. -/
def largeItem (negative : Bool) (bs : Bytes) : Except Stop Value :=
  if bs.length ≤ integerBytes then largeInteger (largeTag negative) bs
  else .ok (.tagged (largeTag negative) (.bytes bs))

/-- **A tagged string of bytes** is read, wherever it stands. -/
theorem item_writeLarge (hlength : bs.length < 2 ^ 64) (rest : Bytes) :
    itemBy (itemAfter (depth + 1)) (writeLarge negative bs ++ rest) =
      (largeItem negative bs).map fun v => (v, rest) := by
  have htag : largeTag negative < 2 ^ 64 := by cases negative <;> decide
  have hhead := head_writeHead 6 (writeHead 2 bs.length ++ (bs ++ rest)) (by decide) htag rfl
  have hbytes := head_writeHead 2 (bs ++ rest) (by decide) hlength rfl
  have htagged : largeTag negative = positiveTag ∨ largeTag negative = negativeTag := by
    cases negative
    · exact .inl rfl
    · exact .inr rfl
  have hlen : integerLength? (largeTag negative) (writeHead 2 bs.length ++ (bs ++ rest)) =
      if bs.length ≤ integerBytes then some (bs.length, bs ++ rest) else none := by
    simp only [integerLength?, if_pos htagged, hbytes, Option.map_some]
  have htake := takeBytes_append bs rest
  rw [writeLarge, List.append_assoc, List.append_assoc, itemBy, hhead]
  simp only [itemAfter, hlen, largeItem]
  by_cases hfits : bs.length ≤ integerBytes
  · simp only [if_pos hfits, htake]
  · simp only [if_neg hfits, itemBy, hbytes]
    cases depth <;> simp [itemAfter, bytesOf, htake, mapResult, Except.map]

/-- A small number in a few bytes is an integer. -/
theorem largeItem_small (hlength : bs.length ≤ integerBytes) (hsmall : ofBigEndian bs < 2 ^ 64) :
    largeItem negative bs = .ok (.integer (largeNumber negative bs)) := by
  have hword : ofBigEndian bs < 0x10000000000000000 := hsmall
  have hrefused : ¬ (largeTag negative = negativeTag ∧
      0x80000000000000000000000000000000 ≤ ofBigEndian bs) := fun h => by omega
  rw [largeItem, if_pos hlength]
  simp only [largeInteger, if_neg hrefused, if_pos hword]
  cases negative <;> rfl

/-- A greater number in a few bytes is left as bytes, if it is not refused. -/
theorem largeItem_large (hlength : bs.length ≤ integerBytes) (hlarge : ¬ ofBigEndian bs < 2 ^ 64)
    {v : Value} (h : largeItem negative bs = .ok v) :
    v = .tagged (largeTag negative) (.bytes (bs.dropWhile (· == 0))) := by
  have hword : ¬ ofBigEndian bs < 0x10000000000000000 := hlarge
  rw [largeItem, if_pos hlength] at h
  simp only [largeInteger, if_neg hword] at h
  split at h
  · exact nomatch h
  · exact (Except.ok.inj h).symm

/-! ### Bytes and digits -/

theorem lt_byte_of_digit {d : Char} (h : Text.isDigit d = true) :
    Text.digitValue d < (UInt8.ofNat d.toNat).toNat := by
  obtain ⟨-, hlow, -, hbyte⟩ := Interchange.toNat_digitByte h
  simp only [Text.digitValue, Char.reduceToNat]
  omega

/-- Digits denote less than their bytes, also after something less. -/
theorem onward_lt_foldl {k l : Nat} (hkl : k < l) {ds : List Char}
    (hds : ∀ d ∈ ds, Text.isDigit d = true) :
    onward k ds < (digitBytes ds).foldl (fun n b => 256 * n + b.toNat) l := by
  induction ds generalizing k l with
  | nil => exact hkl
  | cons d ds ih =>
      have hd := lt_byte_of_digit (hds d (by simp))
      have hnext : 10 * k + Text.digitValue d < 256 * l + (UInt8.ofNat d.toNat).toNat := by omega
      exact ih hnext fun e he => hds e (by simp [he])

/-- A number is less than the bytes of its digits. -/
theorem lt_ofBigEndian_digits (k : Nat) : k < ofBigEndian (digitBytes (Nat.toDigits 10 k)) := by
  have hdigits : ∀ d ∈ Nat.toDigits 10 k, Text.isDigit d = true :=
    fun d => Text.isDigit_of_mem_toDigits
  have hvalue : onward 0 (Nat.toDigits 10 k) = k := Text.ofDigits_toDigits k
  obtain ⟨d, ds, hds⟩ := List.exists_cons_of_ne_nil (Nat.toDigits_ne_nil (b := 10) (n := k))
  rw [hds] at hdigits hvalue ⊢
  -- the first digit is already less than its byte
  have hd := lt_byte_of_digit (hdigits d (by simp))
  have hfirst : 10 * 0 + Text.digitValue d < 256 * 0 + (UInt8.ofNat d.toNat).toNat := by omega
  calc
    k = onward (10 * 0 + Text.digitValue d) ds := hvalue.symm
    _ < ofBigEndian (digitBytes (d :: ds)) :=
      onward_lt_foldl hfirst fun e he => hdigits e (List.mem_cons_of_mem d he)

/-- And so it is with a sign in front of them. -/
theorem lt_ofBigEndian_signed (k : Nat) :
    k < ofBigEndian (45 :: digitBytes (Nat.toDigits 10 k)) := by
  calc
    k = onward 0 (Nat.toDigits 10 k) := (Text.ofDigits_toDigits k).symm
    _ < ofBigEndian (45 :: digitBytes (Nat.toDigits 10 k)) :=
      onward_lt_foldl (by decide) fun d => Text.isDigit_of_mem_toDigits

/-- Zeros in front do not count. -/
theorem ofBigEndian_dropWhile (bs : Bytes) :
    ofBigEndian (bs.dropWhile (· == 0)) = ofBigEndian bs := by
  induction bs with
  | nil => rfl
  | cons b bs ih =>
      rw [List.dropWhile_cons]
      split
      · rename_i hb
        rw [ih, eq_of_beq hb]
        rfl
      · rfl

theorem ascii_of_isIntegral {c : Char} (h : Text.isIntegral c = true) :
    c.toNat < 0x80 ∧ c ≠ '\x00' := by
  rw [Text.isIntegral, Bool.or_eq_true, beq_iff_eq] at h
  rcases h with h | rfl
  · have hdigit := Interchange.toNat_digitByte h
    refine ⟨hdigit.1, ?_⟩
    rintro rfl
    exact absurd hdigit.2.1 (by decide)
  · decide

/-- The bytes of an integer's text. -/
theorem ofString_toString (n : Int) :
    Utf8.ofString (toString n) =
      (if n < 0 then [45] else []) ++ digitBytes (Nat.toDigits 10 n.natAbs) := by
  rw [Utf8.ofString, Text.toList_toString, Utf8.encode_append,
    Interchange.encode_digits fun d => Text.isDigit_of_mem_toDigits]
  split <;> rfl

/-- **The bytes of an integer are not its digits.** -/
theorem text?_ne_digits (negative : Bool) (bs : Bytes) :
    Utf8.text? bs ≠ some (toString (largeNumber negative bs)) := by
  intro htext
  have hbytes := Utf8.ofString_of_text? htext fun c hc =>
    ascii_of_isIntegral (Text.isIntegral_of_mem_toString hc)
  rw [ofString_toString] at hbytes
  cases negative with
  | false =>
      have hnumber : largeNumber false bs = ofBigEndian bs := rfl
      rw [hnumber, if_neg (by omega), Int.natAbs_natCast, List.nil_append] at hbytes
      have hlt := lt_ofBigEndian_digits (ofBigEndian bs)
      rw [← hbytes] at hlt
      exact Nat.lt_irrefl _ hlt
  | true =>
      have hnumber : largeNumber true bs = -1 - (ofBigEndian bs : Int) := rfl
      have habs : (-1 - (ofBigEndian bs : Int)).natAbs = ofBigEndian bs + 1 := by omega
      rw [hnumber, if_pos (by omega), habs, List.singleton_append] at hbytes
      have hlt := lt_ofBigEndian_signed (ofBigEndian bs + 1)
      rw [← hbytes] at hlt
      omega

/-! ### A map with one entry -/

variable {name : String}

/-- The entry of a map is read as its item is. -/
theorem exactly_one (hname : (Utf8.ofString name).length < 2 ^ 64) {item : Bytes}
    {r : Except Stop Value} (hitem : itemBy (itemAfter depth) item = r.map fun v => (v, [])) :
    exactly (entryBy (itemAfter depth)) 1 (writeText name ++ item) =
      r.map fun v => ([(.text name, v)], []) := by
  have hkey := head_writeText item hname
  have htext := itemAfter_text depth name item
  cases r <;> simp_all [exactly, entryBy, Except.map]

/-- **A map with one entry** is read as its item is. -/
theorem read_writeField (hname : (Utf8.ofString name).length < 2 ^ 64) {item : Bytes}
    {r : Except Stop Value}
    (hitem : itemBy (itemAfter (maxDepth - 1)) item = r.map fun v => (v, [])) (v : Value) :
    read (writeField name item) = .ok v ↔ ∃ w, r = .ok w ∧ v = .map [(.text name, w)] := by
  have hhead := head_writeHead 5 (writeText name ++ item) (by decide) (by decide : 1 < 2 ^ 64) rfl
  have hmap : itemAfter maxDepth (.map (some 1)) (writeText name ++ item) =
      r.map fun v => (.map [(.text name, v)], []) := by
    have hdepth : maxDepth = (maxDepth - 1) + 1 := rfl
    rw [hdepth, itemAfter, elements, exactly_one hname hitem]
    cases r <;> rfl
  rw [read, writeField, itemBy, hhead]
  simp only [Option.map_some, hmap]
  cases r with
  | error stop => cases stop <;> simp [Except.map]
  | ok w => simp [Except.map, eq_comm]

end Cbor

end SecretResolver
