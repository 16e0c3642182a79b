/-
**Decimal texts of numbers.**

What the text of an integer is made of, for readers that go through it digit by digit, and the
number that a text of digits denotes.

Main definitions:

* `isIntegral` — the characters of integers;
* `IsNumeral` — a text of digits that denotes a number.

Main results:

* `toList_toString` — the sign and the digits of an integer;
* `isDigit_of_mem_toDigits`, `head?_toDigits` — all are digits, and none is a needless zero;
* `ofDigits_toDigits` — the number that the digits denote;
* `readNat_eq_some_iff` — a text is read as the number that it denotes.
-/

import Mathlib.Data.Nat.Digits.Defs
import SecretResolver.Text.Split

set_option relaxedAutoImplicit false
set_option autoImplicit false

namespace SecretResolver

namespace Text

/-- The text of an integer is a sign and digits. -/
theorem toList_toString (n : Int) :
    (toString n).toList = (if n < 0 then ['-'] else []) ++ Nat.toDigits 10 n.natAbs := by
  cases n with
  | ofNat n =>
      have htext : toString (Int.ofNat n) = String.ofList (Nat.toDigits 10 n) :=
        Nat.toString_eq_ofList_toDigits
      have hsign : ¬ Int.ofNat n < 0 := Int.not_lt.2 (Int.natCast_nonneg n)
      rw [htext, String.toList_ofList, if_neg hsign]
      rfl
  | negSucc n =>
      have htext : toString (Int.negSucc n) = "-" ++ String.ofList (Nat.toDigits 10 (n + 1)) :=
        congrArg ("-" ++ ·) Nat.toString_eq_ofList_toDigits
      have hsign : "-".toList = ['-'] := rfl
      rw [htext, String.toList_append, hsign, String.toList_ofList,
        if_pos (Int.negSucc_lt_zero n), Int.natAbs_negSucc]

theorem isDigit_of_mem_toDigits {n : Nat} {c : Char} (h : c ∈ Nat.toDigits 10 n) :
    isDigit c = true := by
  have hdigit := Nat.isDigit_of_mem_toDigits (by decide) (Nat.le_refl 10) h
  simpa [isDigit, Char.isDigit, Char.le_def] using hdigit

/-- Whether a character stands in the text of an integer. -/
def isIntegral (c : Char) : Bool := isDigit c || c == '-'

theorem isIntegral_of_mem_toString {n : Int} {c : Char} (h : c ∈ (toString n).toList) :
    isIntegral c = true := by
  rw [toList_toString, List.mem_append] at h
  rw [isIntegral, Bool.or_eq_true, beq_iff_eq]
  rcases h with h | h
  · split at h
    · exact .inr (List.mem_singleton.1 h)
    · exact nomatch h
  · exact .inl (isDigit_of_mem_toDigits h)

theorem digitChar_ne_zero : ∀ d < 10, d ≠ 0 → Nat.digitChar d ≠ '0' := by
  decide

/-- Only zero begins with a zero. -/
theorem head?_toDigits {n : Nat} (hn : n ≠ 0) : (Nat.toDigits 10 n).head? ≠ some '0' := by
  induction n using Nat.strong_induction_on with
  | _ n ih =>
      rw [Nat.toDigits_eq_if (by decide)]
      split
      · rename_i hlt
        simpa using digitChar_ne_zero n hlt hn
      · rename_i hge
        have hne : Nat.toDigits 10 (n / 10) ≠ [] := Nat.toDigits_ne_nil
        obtain ⟨d, ds, hd⟩ := List.exists_cons_of_ne_nil hne
        have hrec := ih (n / 10) (by omega) (by omega)
        rw [hd] at hrec ⊢
        exact hrec

/-- A number is denoted by its digits. -/
theorem ofDigits_toDigits (n : Nat) : ofDigits (Nat.toDigits 10 n) = n := by
  have hvalue : Nat.ofDigitChars 10 (Nat.toDigits 10 n) 0 = n := Nat.ofDigitChars_ten_toDigits
  rw [Nat.ofDigitChars_eq_foldl] at hvalue
  exact hvalue

/-! ### Texts of digits -/

/-- A text that denotes a number: it is made of digits, and there is at least one. -/
structure IsNumeral (s : String) (n : Nat) : Prop where
  nonempty : s.toList ≠ []
  digits : ∀ c ∈ s.toList, '0' ≤ c ∧ c ≤ '9'
  value : n = Nat.ofDigits 10 (s.toList.reverse.map fun c => c.toNat - '0'.toNat)

/-- A text denotes one number at most. -/
theorem IsNumeral.unique {s : String} {m n : Nat} (hm : IsNumeral s m) (hn : IsNumeral s n) :
    m = n := hm.value.trans hn.value.symm

/-- Digits denote the same number whether they are read from the front or from the back. -/
theorem ofDigits_eq (cs : List Char) :
    ofDigits cs = Nat.ofDigits 10 (cs.reverse.map fun c => c.toNat - '0'.toNat) := by
  rw [Nat.ofDigits_eq_foldr, List.foldr_map, List.foldr_reverse, ofDigits]
  congr 1
  funext n c
  simp only [digitValue, Nat.cast_id]
  omega

/-- A text is read as the number that it denotes. -/
theorem readNat_eq_some_iff {cs : List Char} {n : Nat} :
    readNat cs = some n ↔ IsNumeral (String.ofList cs) n := by
  have hdigits : isDigits cs = true ↔ cs ≠ [] ∧ ∀ c ∈ cs, '0' ≤ c ∧ c ≤ '9' := by
    simp [isDigits, isDigit]
  rw [readNat]
  constructor
  · intro h
    split at h
    · rename_i hcs
      obtain ⟨hne, hall⟩ := hdigits.1 hcs
      refine ⟨by rwa [String.toList_ofList], by rwa [String.toList_ofList], ?_⟩
      rw [String.toList_ofList, ← ofDigits_eq]
      exact (Option.some.inj h).symm
    · exact nomatch h
  · rintro ⟨hne, hall, hvalue⟩
    rw [String.toList_ofList] at hne hall hvalue
    rw [if_pos (hdigits.2 ⟨hne, hall⟩), ofDigits_eq, hvalue]

/-- Whether a text denotes a number is decided by reading it. -/
instance (s : String) (n : Nat) : Decidable (IsNumeral s n) :=
  decidable_of_iff (readNat s.toList = some n) (by rw [readNat_eq_some_iff, String.ofList_toList])

end Text

end SecretResolver
