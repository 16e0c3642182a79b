/-
**Integers of any size in JSON.**

Digits are added up as long as their number has 64 bits; what has more becomes a double or, if it is
too great for that, a fault.  So an integer keeps its digits exactly if it has 64 bits, wherever it
stands in a text.

Main definitions:

* `Json.fieldText` — an object with an integer as its only member.

Main results:

* `Json.valueAt_toString_large` — an integer of more bits is a double or a fault;
* `Json.read_fieldText`, `Json.read_fieldText_large` — **the object is read**.
-/

import SecretResolver.Proofs.Interchange.AsJson

set_option relaxedAutoImplicit false
set_option autoImplicit false

namespace SecretResolver

namespace Json

open Interchange (quotation onward digitBytes Follows)

variable {n : Int} {rest rest' : Bytes} {depth : Nat}

/-! ### Large integers -/

/-- Where the number of some digits does not fit, some of them are left. -/
theorem accumulate_large {ds : List Char} (h : ∀ d ∈ ds, Text.isDigit d = true) (k : Nat)
    (hk : k ≤ Numeral.greatestWord) (hlarge : Numeral.greatestWord < onward k ds) :
    (accumulate k (digitBytes ds)).2.length ≠ 0 := by
  induction ds generalizing k with
  | nil => exact absurd hk (Nat.not_le.2 hlarge)
  | cons d ds ih =>
      have hd := Interchange.digit_digitByte (h d (by simp))
      have hnext : onward k (d :: ds) = onward (k * 10 + Text.digitValue d) ds := by
        rw [onward, List.foldl_cons, Nat.mul_comm 10 k]
        rfl
      rw [hnext] at hlarge
      rw [digitBytes, List.map_cons, accumulate, hd]
      split
      · simp
      · rename_i hfits
        exact ih (fun e he => h e (by simp [he])) _ (Nat.not_lt.1 hfits) hlarge

/-- What is left after digits that did not fit makes a double, if anything. -/
theorem numberTail_dropped (negative : Bool) (significand : Nat) {dropped : Nat}
    (hdropped : dropped ≠ 0) (hrest : Follows rest) :
    numberTail negative significand dropped rest = real negative significand dropped rest := by
  cases rest with
  | nil => rw [numberTail, if_neg hdropped] <;> rintro bs ⟨⟩
  | cons b rest =>
      obtain ⟨-, hpoint, hsmall, hbig⟩ := hrest b rfl
      rw [numberTail, if_neg hdropped]
      all_goals
        rintro bs ⟨⟩
        contradiction

/-- A double takes nothing from what follows it. -/
theorem real_eq_ok {negative : Bool} {significand : Nat} {e : Int} {m : Number}
    (h : real negative significand e rest = .ok (m, rest')) : rest' = rest ∧ ∃ x, m = .real x := by
  rw [real] at h
  split at h
  · obtain ⟨rfl, rfl⟩ := Prod.mk.inj (Except.ok.inj h)
    exact ⟨rfl, _, rfl⟩
  · exact nomatch h

/-- The digits of a number of more than 64 bits are read as a double, if at all. -/
theorem number_toDigits_large {negative : Bool} {k : Nat} (hk : Numeral.greatestWord < k)
    (hrest : Follows rest) {m : Number}
    (h : number negative (Utf8.encode (Nat.toDigits 10 k) ++ rest) = .ok (m, rest')) :
    rest' = rest ∧ ∃ x, m = .real x := by
  have hne : k ≠ 0 := by
    rintro rfl
    exact nomatch hk
  obtain ⟨d, ds, hds, hdigit, hvalue, hnumber⟩ := Interchange.number_digits negative hne hrest
  have hdigit' : Text.digitValue d ≤ Numeral.greatestWord := hdigit.trans (by decide)
  have hdropped := accumulate_large hds _ hdigit' (by rw [hvalue]; exact hk)
  rw [hnumber, numberTail_dropped _ _ hdropped hrest] at h
  exact real_eq_ok h

/-- **An integer of more than 64 bits** is read as a double, if at all. -/
theorem valueAt_toString_large (hn : Yaml.isWord n = false) (hrest : Follows rest) {v : Value}
    (h : valueAt depth (Utf8.encode (toString n).toList ++ rest) = .ok (v, rest')) :
    rest' = rest ∧ ∃ x, v = .number (.real x) := by
  rw [Interchange.valueAt_toString] at h
  cases hnumber : number (decide (n < 0)) (Utf8.encode (Nat.toDigits 10 n.natAbs) ++ rest) with
  | error fault =>
      rw [hnumber] at h
      exact nomatch h
  | ok r =>
      obtain ⟨m, rest''⟩ := r
      have hresult : rest'' = rest ∧ ∃ x, m = .real x := by
        by_cases hmax : n.natAbs ≤ Numeral.greatestWord
        · -- only what is too far below zero fits without its sign
          rw [Interchange.number_toDigits _ hmax hrest] at hnumber
          obtain ⟨rfl, rfl⟩ := Prod.mk.inj (Except.ok.inj hnumber)
          have hbelow : n < 0 ∧ ¬ (n.natAbs ≠ 0 ∧ n.natAbs ≤ 0x8000000000000000) := by
            simp only [Yaml.isWord, Bool.and_eq_false_iff, decide_eq_false_iff_not] at hn
            simp only [Numeral.greatestWord] at hmax
            omega
          refine ⟨rfl, (Binary64.ofNat n.natAbs).negate, ?_⟩
          simp only [whole?, decide_eq_true hbelow.1, Bool.not_true, Bool.false_eq_true, if_false,
            if_neg hbelow.2]
        · exact number_toDigits_large (Nat.not_le.1 hmax) hrest hnumber
      obtain ⟨rfl, x, rfl⟩ := hresult
      rw [hnumber] at h
      obtain ⟨rfl, rfl⟩ := Prod.mk.inj (Except.ok.inj h)
      exact ⟨rfl, x, rfl⟩

/-! ### An object with one member -/

/-- An object with an integer as its only member. -/
def fieldText (spelled : List Char) (n : Int) : List Char :=
  '\x7b' :: (quotation spelled ++ ':' :: ((toString n).toList ++ ['\x7d']))

theorem encode_fieldText (spelled : List Char) (n : Int) :
    Utf8.encode (fieldText spelled n) =
      123 :: (Utf8.encode (quotation spelled) ++
        58 :: (Utf8.encode (toString n).toList ++ [125])) := by
  rw [fieldText, Utf8.encode_cons_ascii (by decide), Utf8.encode_append,
    Utf8.encode_cons_ascii (by decide), Utf8.encode_append]
  rfl

theorem follows_brace : Follows [125] := by
  rintro b ⟨⟩
  decide

variable {name : String} {spelled : List Char}

theorem memberName?_spelled (hname : Text.Spelled Stands name.toList spelled) (rest : Bytes) :
    memberName? true (Utf8.encode (quotation spelled) ++ rest) = .ok (some name, rest) := by
  have hquote : Utf8.encode (quotation spelled) ++ rest =
      34 :: (Utf8.encode spelled ++ 34 :: rest) := by
    rw [Interchange.encode_quotation]
    simp
  have hskip (bs : Bytes) : skipBlanks (34 :: bs) = 34 :: bs := rfl
  simp [memberName?, hquote, hskip, text_spelled hname rest]

/-- What the object is read as depends on how its integer is read. -/
theorem read_member (hname : Text.Spelled Stands name.toList spelled) {v : Value}
    (hv : valueAt 126 (Utf8.encode (toString n).toList ++ [125]) = .ok (v, [125])) :
    read (Utf8.encode (fieldText spelled n)) = .ok (.object [(name, v)]) := by
  have hmember := memberName?_spelled hname
    (58 :: (Utf8.encode (toString n).toList ++ [125]))
  have hopen (bs : Bytes) : skipBlanks (123 :: bs) = 123 :: bs := rfl
  rw [encode_fieldText, read, whole, maxDepth, valueAt, hopen]
  simp only [members_of_parts hmember rfl hv]
  rfl

theorem read_member_error (hname : Text.Spelled Stands name.toList spelled) {fault : Fault}
    (hv : valueAt 126 (Utf8.encode (toString n).toList ++ [125]) = .error fault) :
    read (Utf8.encode (fieldText spelled n)) = .error fault := by
  have hmember := memberName?_spelled hname
    (58 :: (Utf8.encode (toString n).toList ++ [125]))
  have hcolon (bs : Bytes) : colon (58 :: bs) = .ok bs := rfl
  have hopen (bs : Bytes) : skipBlanks (123 :: bs) = 123 :: bs := rfl
  rw [encode_fieldText, read, whole, maxDepth, valueAt, hopen]
  simp only [members, hmember, hcolon, hv, mapResult]

/-- **An object with an integer of 64 bits** is read. -/
theorem read_fieldText (hname : Text.Spelled Stands name.toList spelled)
    (hn : Yaml.isWord n = true) :
    read (Utf8.encode (fieldText spelled n)) = .ok (.object [(name, .number (.integer n))]) :=
  read_member hname (Interchange.valueAt_integer hn follows_brace 126)

/-- **An object with any other integer** has a double in its place, if it is read at all. -/
theorem read_fieldText_large (hname : Text.Spelled Stands name.toList spelled)
    (hn : Yaml.isWord n = false) {v : Value}
    (h : read (Utf8.encode (fieldText spelled n)) = .ok v) :
    ∃ x, v = .object [(name, .number (.real x))] := by
  cases hvalue : valueAt 126 (Utf8.encode (toString n).toList ++ [125]) with
  | error fault => exact nomatch (read_member_error hname hvalue).symm.trans h
  | ok r =>
      obtain ⟨w, rest⟩ := r
      obtain ⟨rfl, x, rfl⟩ := valueAt_toString_large hn follows_brace hvalue
      exact ⟨x, (Except.ok.inj ((read_member hname hvalue).symm.trans h)).symm⟩

end Json

end SecretResolver
