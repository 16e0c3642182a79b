/-
**The order of texts.**

Texts are compared character by character, and lists may be sorted by a text of each element.  In
UTF-8 a greater character has greater bytes: the first byte tells how many there are, and the bits
of the number come in their order.  So texts stand in the same order as their bytes.

Main definitions:

* `Utf8.wide` — a number in a first byte and so many bytes of six bits.

Main results:

* `Text.pairwise_mergeSort` — lists sorted by a text are in order;
* `Utf8.encodeChar_cases` — the bytes of a character in these words;
* `Utf8.wide_append_lt`, `Utf8.encodeChar_append_lt` — the order of numbers and of characters;
* `Utf8.ofString_lt_ofString` — **a lesser text has lesser bytes**.
-/

import Mathlib.Algebra.Group.Nat.Defs
import SecretResolver.Text.Utf8

set_option relaxedAutoImplicit false
set_option autoImplicit false

namespace SecretResolver

/-! ### Sorting by a text -/

namespace Text

variable {α : Type} {f : α → String}

theorem le_trans_by {a b c : α} (hab : decide (f a ≤ f b) = true)
    (hbc : decide (f b ≤ f c) = true) : decide (f a ≤ f c) = true :=
  decide_eq_true (String.le_trans (of_decide_eq_true hab) (of_decide_eq_true hbc))

theorem le_total_by (a b : α) : (decide (f a ≤ f b) || decide (f b ≤ f a)) = true := by
  rw [Bool.or_eq_true, decide_eq_true_eq, decide_eq_true_eq]
  exact String.le_total (f a) (f b)

/-- What is sorted by a text is in order. -/
theorem pairwise_mergeSort (f : α → String) (xs : List α) :
    (xs.mergeSort fun a b => decide (f a ≤ f b)).Pairwise fun a b => f a ≤ f b := by
  have hsorted := List.pairwise_mergeSort (fun _ _ _ => le_trans_by) (le_total_by (f := f)) xs
  exact hsorted.imp of_decide_eq_true

end Text

namespace Utf8

/-! ### Numbers in bytes -/

/-- The last digits of a number to the base 64, each in a byte. -/
def tails : (width : Nat) → Nat → Bytes
  | 0, _ => []
  | width + 1, n => UInt8.ofNat (n / 64 ^ width % 64 + 128) :: tails width n

/-- A number in a first byte, to which something is added, and so many bytes of six bits. -/
def wide (base width n : Nat) : Bytes := UInt8.ofNat (n / 64 ^ width + base) :: tails width n

variable {m n : Nat}

/-- Bytes are less if the first one is, or if it is the same and those after it are less. -/
theorem ofNat_cons_lt {a b : Nat} {as bs : Bytes} (ha : a < 256) (hb : b < 256)
    (h : a < b ∨ a = b ∧ as < bs) : UInt8.ofNat a :: as < UInt8.ofNat b :: bs := by
  have ha' : (UInt8.ofNat a).toNat = a := by
    rw [UInt8.toNat_ofNat']
    omega
  have hb' : (UInt8.ofNat b).toNat = b := by
    rw [UInt8.toNat_ofNat']
    omega
  rwa [List.cons_lt_cons_iff, UInt8.lt_iff_toNat_lt, ← UInt8.toNat_inj, ha', hb']

/-- The digits before some place are less, or they are the same and those after it are less. -/
theorem div_lt_or_mod_lt (width : Nat) (h : m < n) :
    m / 64 ^ width < n / 64 ^ width ∨
      m / 64 ^ width = n / 64 ^ width ∧ m % 64 ^ width < n % 64 ^ width := by
  have hle : m / 64 ^ width ≤ n / 64 ^ width := Nat.div_le_div_right (Nat.le_of_lt h)
  rcases Nat.lt_or_eq_of_le hle with hlt | heq
  · exact .inl hlt
  · refine .inr ⟨heq, ?_⟩
    have hm := Nat.div_add_mod m (64 ^ width)
    have hn := Nat.div_add_mod n (64 ^ width)
    rw [heq] at hm
    omega

theorem tails_append_lt (width : Nat) (h : m % 64 ^ width < n % 64 ^ width) (as bs : Bytes) :
    tails width m ++ as < tails width n ++ bs := by
  induction width with
  | zero => simp [Nat.mod_one] at h
  | succ width ih =>
      have hdigits := div_lt_or_mod_lt width h
      rw [Nat.pow_succ, Nat.mod_mul_right_div_self, Nat.mod_mul_right_div_self,
        Nat.mod_mul_right_mod, Nat.mod_mul_right_mod] at hdigits
      refine ofNat_cons_lt (by omega) (by omega) ?_
      rcases hdigits with hlead | ⟨hlead, htails⟩
      · exact .inl (by omega)
      · exact .inr ⟨by omega, ih htails⟩

/-- The bytes of a lesser number are less, whatever comes after them. -/
theorem wide_append_lt {base width : Nat} (hn : n / 64 ^ width + base < 256) (h : m < n)
    (as bs : Bytes) : wide base width m ++ as < wide base width n ++ bs := by
  have hdigits := div_lt_or_mod_lt width h
  refine ofNat_cons_lt (by omega) hn ?_
  rcases hdigits with hlead | ⟨hlead, htails⟩
  · exact .inl (by omega)
  · exact .inr ⟨by omega, tails_append_lt width htails as bs⟩

/-- Bytes whose first one is less. -/
theorem wide_append_lt_of_lead {base width base' width' : Nat} (hn : n / 64 ^ width' + base' < 256)
    (h : m / 64 ^ width + base < n / 64 ^ width' + base') (as bs : Bytes) :
    wide base width m ++ as < wide base' width' n ++ bs :=
  ofNat_cons_lt (Nat.lt_trans h hn) hn (.inl h)

/-! ### Texts -/

/-- The bytes of a character. -/
theorem encodeChar_cases (c : Char) :
    (c.toNat ≤ 127 ∧ String.utf8EncodeChar c = wide 0 0 c.toNat) ∨
    (127 < c.toNat ∧ c.toNat ≤ 2047 ∧ String.utf8EncodeChar c = wide 192 1 c.toNat) ∨
    (2047 < c.toNat ∧ c.toNat ≤ 65535 ∧ String.utf8EncodeChar c = wide 224 2 c.toNat) ∨
    (65535 < c.toNat ∧ c.toNat < 0x110000 ∧ String.utf8EncodeChar c = wide 240 3 c.toNat) := by
  have hvalid : c.toNat < 0xd800 ∨ 0xdfff < c.toNat ∧ c.toNat < 0x110000 := c.valid
  have hval : c.val.toNat = c.toNat := rfl
  unfold String.utf8EncodeChar
  rw [hval]
  generalize c.toNat = n at hvalid
  dsimp only
  split
  · exact .inl ⟨by omega, by simp [wide, tails]⟩
  · split
    · refine .inr (.inl ⟨by omega, by omega, ?_⟩)
      have hlead : n / 64 % 32 = n / 64 := by omega
      simp [wide, tails, hlead]
    · split
      · refine .inr (.inr (.inl ⟨by omega, by omega, ?_⟩))
        have hlead : n / 4096 % 16 = n / 4096 := by omega
        simp [wide, tails, hlead]
      · refine .inr (.inr (.inr ⟨by omega, by omega, ?_⟩))
        have hlead : n / 262144 % 8 = n / 262144 := by omega
        simp [wide, tails, hlead]

/-- The bytes of a lesser character are less, whatever comes after them. -/
theorem encodeChar_append_lt {c d : Char} (h : c < d) (as bs : Bytes) :
    String.utf8EncodeChar c ++ as < String.utf8EncodeChar d ++ bs := by
  have hcd : c.toNat < d.toNat := h
  rcases encodeChar_cases c with ⟨hc, hc'⟩ | ⟨hc₁, hc, hc'⟩ | ⟨hc₁, hc, hc'⟩ | ⟨hc₁, hc, hc'⟩ <;>
    rcases encodeChar_cases d with ⟨hd, hd'⟩ | ⟨hd₁, hd, hd'⟩ | ⟨hd₁, hd, hd'⟩ | ⟨hd₁, hd, hd'⟩ <;>
    rw [hc', hd']
  all_goals first
    | exact wide_append_lt (by omega) hcd as bs
    | exact wide_append_lt_of_lead (by omega) (by omega) as bs

/-- **A lesser text has lesser bytes.** -/
theorem encode_lt_encode {cs ds : List Char} (h : cs < ds) : encode cs < encode ds := by
  induction h with
  | @nil d ds =>
      obtain ⟨b, bs, hd⟩ := List.exists_cons_of_ne_nil (String.utf8EncodeChar_ne_nil (c := d))
      rw [encode_cons, hd]
      exact List.nil_lt_cons b (bs ++ encode ds)
  | rel h => exact encodeChar_append_lt h _ _
  | cons h ih => exact List.append_left_lt ih

theorem ofString_lt_ofString {s t : String} (h : s < t) : ofString s < ofString t :=
  encode_lt_encode h

end Utf8

end SecretResolver
