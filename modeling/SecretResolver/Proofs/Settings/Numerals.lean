/-
**Numerals in settings.**

Formats without types and variables of the environment have texts in place of numbers.  A numeral
begins with a digit, so it is none of the words for truth values, in whatever letters these are
written, and no sign stands in front of it.  What 63 bits can hold is read as the number that the
numeral denotes.

Main definitions:

* `Settings.bound` — the end of the integers that have a sign and 64 bits.

Main results:

* `Text.IsNumeral.word?_eq_none` — a numeral is no truth value;
* `Text.IsNumeral.natural?_eq`, `Text.IsNumeral.integer?_eq` — the number it is read as.
-/

import SecretResolver.Proofs.Text.Decimal
import SecretResolver.Settings.Layer

set_option relaxedAutoImplicit false
set_option autoImplicit false

namespace SecretResolver

/-- The integers that have a sign and 64 bits end below this number. -/
def Settings.bound : Nat := 2 ^ 63

namespace Text

/-! ### What numerals are not -/

/-- A numeral begins with a digit. -/
theorem IsNumeral.head {s : String} {n : Nat} (h : IsNumeral s n) :
    ∃ c cs, s.toList = c :: cs ∧ '0' ≤ c ∧ c ≤ '9' := by
  obtain ⟨c, cs, hs⟩ := List.exists_cons_of_ne_nil h.nonempty
  exact ⟨c, cs, hs, h.digits c (by rw [hs]; exact List.mem_cons_self ..)⟩

theorem toLower_of_digit {c : Char} (h9 : c ≤ '9') : c.toLower = c := by
  have hcapital : ¬ (c.val ≥ 'A'.val ∧ c.val ≤ 'Z'.val) := by
    rintro ⟨hge, -⟩
    exact absurd (UInt32.le_trans hge h9) (by decide)
  exact dif_neg hcapital

theorem lowerChar_of_digit {c : Char} (h9 : c ≤ '9') : lowerChar c = [c] := by
  have hcode : c.toNat < 0x80 := by
    have h : c.val.toNat ≤ 57 := h9
    exact Nat.lt_of_le_of_lt h (by decide)
  rw [lowerChar, if_pos hcode, toLower_of_digit h9]

/-- A numeral in small letters is no word that begins with a letter. -/
theorem IsNumeral.lowerAscii_ne {s t : String} {n : Nat} (h : IsNumeral s n)
    (ht : t.toList.head?.any ('9' < ·) = true) : lowerAscii s ≠ t := by
  obtain ⟨d, ds, hs, -, h9⟩ := h.head
  rintro rfl
  rw [lowerAscii, String.toList_ofList, hs, List.map_cons, toLower_of_digit h9] at ht
  exact absurd (of_decide_eq_true ht) (Char.not_lt.2 h9)

theorem IsNumeral.lower_ne {s t : String} {n : Nat} (h : IsNumeral s n)
    (ht : t.toList.head?.any ('9' < ·) = true) : lower s ≠ t := by
  obtain ⟨d, ds, hs, -, h9⟩ := h.head
  rintro rfl
  rw [lower, String.toList_ofList, hs, List.flatMap_cons, lowerChar_of_digit h9] at ht
  exact absurd (of_decide_eq_true ht) (Char.not_lt.2 h9)

/-- A numeral is no truth value. -/
theorem IsNumeral.word?_eq_none {s : String} {n : Nat} (h : IsNumeral s n) :
    Setting.word? s = none := by
  have htrue : lower s ∉ ["true", "on", "yes"] := by
    simp only [List.mem_cons, List.not_mem_nil, or_false, not_or]
    exact ⟨h.lower_ne rfl, h.lower_ne rfl, h.lower_ne rfl⟩
  have hfalse : lower s ∉ ["false", "off", "no"] := by
    simp only [List.mem_cons, List.not_mem_nil, or_false, not_or]
    exact ⟨h.lower_ne rfl, h.lower_ne rfl, h.lower_ne rfl⟩
  simp only [Setting.word?, if_neg htrue, if_neg hfalse]

/-! ### What numerals are read as -/

theorem IsNumeral.readNat_eq {s : String} {n : Nat} (h : IsNumeral s n) :
    readNat s.toList = some n := readNat_eq_some_iff.2 (by rwa [String.ofList_toList])

/-- A numeral has no sign. -/
theorem IsNumeral.sign_eq {s : String} {n : Nat} (h : IsNumeral s n) :
    Numeral.sign s.toList = (false, s.toList) := by
  obtain ⟨c, cs, hs, h0, -⟩ := h.head
  rw [hs]
  unfold Numeral.sign
  split
  · rename_i heq
    exact absurd (List.head_eq_of_cons_eq heq ▸ h0) (by decide)
  · rename_i heq
    exact absurd (List.head_eq_of_cons_eq heq ▸ h0) (by decide)
  · rfl

theorem IsNumeral.natural?_eq {s : String} {n : Nat} (h : IsNumeral s n) (hn : n < Settings.bound) :
    Numeral.natural? s = some n := by
  obtain ⟨c, cs, hs, h0, -⟩ := h.head
  have hword : n ≤ Numeral.greatestWord := by
    simp only [Settings.bound, Numeral.greatestWord] at hn ⊢
    omega
  have hread := h.readNat_eq
  unfold Numeral.natural?
  split
  · rename_i heq
    rw [hs] at heq
    exact absurd (List.head_eq_of_cons_eq heq ▸ h0) (by decide)
  · simp [hread, hword]

theorem IsNumeral.integer?_eq {s : String} {n : Nat} (h : IsNumeral s n) (hn : n < Settings.bound) :
    Numeral.integer? s = some (n : Int) := by
  have hword : Numeral.isSignedWord (n : Int) = true := by
    simp only [Settings.bound] at hn
    simp only [Numeral.isSignedWord, Bool.and_eq_true, decide_eq_true_eq]
    omega
  simp [Numeral.integer?, h.sign_eq, h.readNat_eq, Numeral.signed, hword]

end Text

end SecretResolver
