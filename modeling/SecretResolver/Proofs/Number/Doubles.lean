/-
**Doubles in place of integers.**

Where an integer does not fit, readers take the nearest double for it.  A format that ends whole
numbers in `.0` writes no double like an integer, so whoever reads an integer as a double can tell
afterwards.  The nearest double is an infinity from halfway between the greatest double and the
power of two above it on.

Main definitions:

* `Binary64.overflow` — the least natural number that has no finite double near it.

Main results:

* `FloatStyle.write_ne_toString` — **no double is written like an integer**;
* `Binary64.isFinite_ofDecimal` — the integers that have a finite double.
-/

import Mathlib.Data.Nat.Digits.Defs
import Mathlib.Tactic.Ring
import SecretResolver.Number.Layout
import SecretResolver.Proofs.Text.Decimal

set_option relaxedAutoImplicit false
set_option autoImplicit false

namespace SecretResolver

/-! ### Writing -/

namespace FloatStyle

/-- A text that no integer has. -/
def Foreign (t : String) : Prop := ∃ c ∈ t.toList, Text.isIntegral c = false

instance (t : String) : Decidable (Foreign t) :=
  List.decidableBEx (fun c => Text.isIntegral c = false) t.toList

theorem Foreign.ne_toString {t : String} (h : Foreign t) (n : Int) : t ≠ toString n := by
  rintro rfl
  obtain ⟨c, hc, hforeign⟩ := h
  rw [Text.isIntegral_of_mem_toString hc] at hforeign
  exact nomatch hforeign

theorem toString_not_mem {ts : List String} (h : ∀ t ∈ ts, Foreign t) (n : Int) :
    toString n ∉ ts := fun hmem => (h _ hmem).ne_toString n rfl

theorem Foreign.append_left {t : String} (h : Foreign t) (u : String) : Foreign (u ++ t) := by
  obtain ⟨c, hc, hforeign⟩ := h
  exact ⟨c, by simp [hc], hforeign⟩

theorem Foreign.append_right {t : String} (h : Foreign t) (u : String) : Foreign (t ++ u) := by
  obtain ⟨c, hc, hforeign⟩ := h
  exact ⟨c, by simp [hc], hforeign⟩

variable {s : FloatStyle}

/-- Digits with a point are no integer. -/
theorem foreign_positional (hs : s.pointZero = true) (digits : String) (before : Int) :
    Foreign (s.positional digits before) := by
  have hpoint : Foreign "." := by decide
  have hzero : Foreign "0." := by decide
  have hwhole : Foreign ".0" := by decide
  rw [positional, hs, if_pos rfl]
  split
  · exact (hzero.append_right _).append_right _
  · split
    · exact hwhole.append_left _
    · exact (hpoint.append_left _).append_right _

/-- Digits with an exponent are no integer. -/
theorem foreign_exponential (plus : Bool) (digits : String) (before : Int) :
    Foreign (exponential plus digits before) := by
  have hletter : Foreign "e" := by decide
  exact ((hletter.append_left _).append_right _).append_right _

theorem foreign_decimal (hs : s.pointZero = true) (x : Decimal) : Foreign (s.decimal x) := by
  have hzero : Foreign "0.0" := by decide
  rw [decimal, hs, if_pos rfl]
  split
  · exact hzero
  · split
    · exact foreign_positional hs _ _
    · dsimp only
      split
      · exact foreign_positional hs _ _
      · exact foreign_exponential _ _ _

/-- **No double is written like an integer** by a format that ends whole numbers in `.0`. -/
theorem write_ne_toString (hs : s.pointZero = true) (habove : Foreign s.above)
    (hbelow : Foreign s.below) (hnan : Foreign s.nan) (x : Binary64) (n : Int) :
    s.write x ≠ toString n := by
  refine Foreign.ne_toString ?_ n
  match x with
  | .finite negative m e => exact (foreign_decimal hs _).append_left _
  | .infinite false => exact habove
  | .infinite true => exact hbelow
  | .nan => exact hnan

theorem compact_ne_toString (x : Binary64) (n : Int) : compact.write x ≠ toString n :=
  write_ne_toString rfl (by decide) (by decide) (by decide) x n

theorem signedExponent_ne_toString (x : Binary64) (n : Int) :
    signedExponent.write x ≠ toString n :=
  write_ne_toString rfl (by decide) (by decide) (by decide) x n

end FloatStyle

/-! ### Rounding -/

namespace Binary64

/-- The least natural number that has no finite double near it.  It lies halfway between the
greatest double and `2 ^ 1024`, and of the two the latter has the even mantissa. -/
def overflow : Nat := 2 ^ 1024 - 2 ^ 970

/-- Dividing by a power of two leaves the numerator. -/
theorem scale_neg (n k : Nat) : scale n 1 (-(k : Int)) = (n, 2 ^ k) := by
  rw [scale]
  split
  · have hk : k = 0 := by omega
    subst hk
    rfl
  · rw [Int.neg_neg, Int.toNat_natCast, Nat.one_shiftLeft]

theorem log2Ratio_one {n : Nat} (hn : n ≠ 0) : log2Ratio n 1 = Nat.log2 n := by
  have hle : ¬ n < 2 ^ Nat.log2 n := Nat.not_lt.2 (Nat.log2_self_le hn)
  have hone : ((Nat.log2 1 : Nat) : Int) = 0 := by decide
  simp only [log2Ratio, hone, Int.sub_zero, scale_neg, if_neg hle]

/-- What is nearest to a fraction lies next to its quotient. -/
theorem roundHalfEven_le (n d : Nat) : roundHalfEven n d ≤ n / d + 1 := by
  simp only [roundHalfEven]
  repeat' split
  all_goals omega

/-- With an odd quotient, a fraction is rounded up from the middle on. -/
theorem roundHalfEven_of_odd {n d : Nat} (hodd : n / d % 2 = 1) :
    roundHalfEven n d = if 2 * (n % d) < d then n / d else n / d + 1 := by
  simp only [roundHalfEven, hodd]
  split
  · rfl
  · simp

/-- A fraction below a power of two is rounded up to it from the middle of the last step on. -/
theorem roundHalfEven_eq_iff {n h : Nat} (hpos : 0 < h) (hn : n < 2 * leastFull * (2 * h)) :
    roundHalfEven n (2 * h) = 2 * leastFull ↔ (4 * leastFull - 1) * h ≤ n := by
  have hdiv : 2 * h * (n / (2 * h)) + n % (2 * h) = n := Nat.div_add_mod n (2 * h)
  have hmod : n % (2 * h) < 2 * h := Nat.mod_lt n (by omega)
  have hquot : n / (2 * h) < 2 * leastFull := by
    rw [Nat.mul_comm] at hn
    exact Nat.div_lt_of_lt_mul hn
  by_cases hlast : n / (2 * h) = 2 * leastFull - 1
  · rw [roundHalfEven_of_odd (by rw [hlast]; decide)]
    rw [hlast] at hdiv ⊢
    simp only [leastFull] at hdiv ⊢
    split <;> omega
  · -- the quotient is too small by two
    have hround := roundHalfEven_le n (2 * h)
    have hsteps : 2 * h * (n / (2 * h)) ≤ 2 * h * (2 * leastFull - 2) :=
      Nat.mul_le_mul_left _ (by omega)
    simp only [leastFull] at *
    omega

/-- A number of `k + 54` bits is rounded up to the next power of two from the middle of the last step
on. -/
theorem roundHalfEven_of_log2 {n k : Nat} (hlog : Nat.log2 n = k + 1 + 52) :
    roundHalfEven n (2 ^ (k + 1)) = 2 * leastFull ↔ (4 * leastFull - 1) * 2 ^ k ≤ n := by
  have hfull : 2 * leastFull = 2 ^ 53 := by decide
  have htop : 2 ^ (k + 1 + 52 + 1) = 2 * leastFull * (2 * 2 ^ k) := by
    rw [hfull]
    ring
  have hlt : n < 2 ^ (Nat.log2 n + 1) := Nat.lt_log2_self
  rw [hlog, htop] at hlt
  rw [Nat.pow_succ']
  exact roundHalfEven_eq_iff (Nat.two_pow_pos k) hlt

theorem overflow_eq : overflow = (4 * leastFull - 1) * 2 ^ 970 := by
  have hfull : 4 * leastFull = 2 ^ 54 := by decide
  rw [overflow, hfull, Nat.sub_mul, Nat.one_mul, ← Nat.pow_add]

/-- The double nearest to a natural number with more than 53 bits. -/
theorem ofRatio_of_log2 (negative : Bool) {n e : Nat} (hlog : Nat.log2 n = e + 52) :
    ofRatio negative n 1 =
      if roundHalfEven n (2 ^ e) = 2 * leastFull then
        if greatestExponent < e + 1 then .infinite negative
        else .finite negative leastFull (e + 1)
      else if greatestExponent < e then .infinite negative
      else .finite negative (roundHalfEven n (2 ^ e)) e := by
  have hn : n ≠ 0 := by
    rintro rfl
    rw [Nat.log2_zero] at hlog
    omega
  have hexponent : max (log2Ratio n 1 - 52) leastExponent = (e : Int) := by
    rw [log2Ratio_one hn, hlog, leastExponent]
    omega
  rw [ofRatio, if_neg hn]
  simp only [hexponent, scale_neg]
  split <;> rfl

/-- Up to 1023 bits there is a finite double. -/
theorem isFinite_ofRatio_of_le (negative : Bool) {n : Nat} (hlog : Nat.log2 n ≤ 1022) :
    (ofRatio negative n 1).isFinite = true := by
  by_cases hn : n = 0
  · subst hn
    rfl
  · have hexponent : max (log2Ratio n 1 - 52) leastExponent + 1 ≤ greatestExponent := by
      rw [log2Ratio_one hn, leastExponent, greatestExponent]
      omega
    rw [ofRatio, if_neg hn]
    generalize max (log2Ratio n 1 - 52) leastExponent = e at hexponent
    simp only
    split
    · rw [if_neg (Int.not_lt.2 hexponent)]
      rfl
    · rw [if_neg (Int.not_lt.2 (Int.le_of_lt (Int.lt_of_add_one_le hexponent)))]
      rfl

theorem overflow_bounds : 2 ^ 1023 ≤ overflow ∧ overflow ≤ 2 ^ 1024 := by
  have hhalf : 2 ^ 1023 = 2 ^ 53 * 2 ^ 970 := by rw [← Nat.pow_add]
  refine ⟨?_, Nat.sub_le _ _⟩
  rw [hhalf, overflow_eq]
  exact Nat.mul_le_mul_right _ (by decide)

/-- Rounding decides about the numbers of 1024 bits. -/
theorem isFinite_ofRatio_of_eq (negative : Bool) {n : Nat} (hlog : Nat.log2 n = 970 + 1 + 52) :
    (ofRatio negative n 1).isFinite = true ↔ n < overflow := by
  rw [ofRatio_of_log2 negative hlog, ← Nat.not_le, overflow_eq, ← roundHalfEven_of_log2 hlog]
  split
  · rename_i hup
    exact iff_of_false (by rw [if_pos (by decide)]; exact Bool.false_ne_true) (not_not.2 hup)
  · rename_i hdown
    exact iff_of_true (by rw [if_neg (by decide)]; rfl) hdown

theorem two_pow_mono {j k : Nat} (h : j ≤ k) : 2 ^ j ≤ 2 ^ k := Nat.pow_le_pow_right Nat.two_pos h

theorem lt_two_pow_of_log2_lt {n k : Nat} (h : Nat.log2 n < k) : n < 2 ^ k :=
  Nat.lt_log2_self.trans_le (two_pow_mono h)

theorem two_pow_le_of_le_log2 {n k : Nat} (hn : n ≠ 0) (h : k ≤ Nat.log2 n) : 2 ^ k ≤ n :=
  (Nat.le_log2 hn).1 h

/-- Up to 1023 bits numbers stay below the bound. -/
theorem lt_overflow {n k : Nat} (hn : n < 2 ^ k) (hk : k ≤ 1023) : n < overflow :=
  hn.trans_le ((two_pow_mono hk).trans overflow_bounds.1)

/-- The double nearest to a natural number is finite below the bound. -/
theorem isFinite_ofRatio (negative : Bool) (n : Nat) :
    (ofRatio negative n 1).isFinite = true ↔ n < overflow := by
  obtain ⟨hlow, hhigh⟩ := overflow_bounds
  rcases Nat.lt_trichotomy (Nat.log2 n) 1023 with hlog | hlog | hlog
  · exact iff_of_true (isFinite_ofRatio_of_le negative (Nat.le_of_lt_succ hlog))
      ((lt_two_pow_of_log2_lt hlog).trans_le hlow)
  · exact isFinite_ofRatio_of_eq negative hlog
  · have hn : n ≠ 0 := by
      rintro rfl
      exact nomatch hlog
    obtain ⟨e, he⟩ : ∃ e, Nat.log2 n = e + 52 := ⟨Nat.log2 n - 52, by omega⟩
    have hgreat : greatestExponent < (e : Int) := by
      rw [greatestExponent]
      omega
    refine iff_of_false ?_ (Nat.not_lt.2 (hhigh.trans (two_pow_le_of_le_log2 hn hlog)))
    rw [ofRatio_of_log2 negative he, if_pos hgreat, if_pos (Int.lt_add_one_of_le hgreat.le)]
    split <;> exact Bool.false_ne_true

/-- **The integers that have a finite double.** -/
theorem isFinite_ofDecimal (negative : Bool) (n : Nat) :
    (ofDecimal negative n 0).isFinite = true ↔ n < overflow := by
  by_cases hn : n = 0
  · subst hn
    exact isFinite_ofRatio negative 0
  · have hvalue : n * Nat.pow 10 (0 : Int).toNat = n := Nat.mul_one n
    rw [ofDecimal, if_neg hn]
    dsimp only
    split
    · rename_i hwide
      have hlarge : 10 ^ 310 ≤ n := by
        by_contra hlt
        have hlength := Nat.toDigits_length 10 n 310 (by decide) (Nat.not_le.1 hlt)
        omega
      have hpow : 2 ^ 1024 ≤ 10 ^ 310 := by decide +kernel
      exact iff_of_false Bool.false_ne_true
        (Nat.not_lt.2 (overflow_bounds.2.trans (hpow.trans hlarge)))
    · rw [if_pos (Int.le_refl 0), hvalue]
      exact isFinite_ofRatio negative n

end Binary64

end SecretResolver
