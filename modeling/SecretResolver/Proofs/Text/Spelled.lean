/-
**Texts that are spelled character by character.**

A format says what may stand for a character, and a text is spelled when each of its characters is.
The formats differ in what may stand for a character but not in this.

Main definitions:

* `Spelled` — a text and how it is spelled.

Main results:

* `spelled_flatMap` — every text is spelled that has a spelling for each character;
* `Spelled.mono` — what may stand for a character in one format may do so in another.
-/

import Mathlib.Data.List.Basic

set_option relaxedAutoImplicit false
set_option autoImplicit false

namespace SecretResolver

namespace Text

/-- A text and how it is spelled, where `R` says what may stand for a character. -/
inductive Spelled (R : Char → List Char → Prop) : List Char → List Char → Prop
  | nil : Spelled R [] []
  | cons {c : Char} {cs spelled written : List Char} (hc : R c spelled) (h : Spelled R cs written) :
      Spelled R (c :: cs) (spelled ++ written)

variable {R R' : Char → List Char → Prop} {cs written : List Char}

theorem spelled_flatMap {f : Char → List Char} (h : ∀ c ∈ cs, R c (f c)) :
    Spelled R cs (cs.flatMap f) := by
  induction cs with
  | nil => exact .nil
  | cons c cs ih => exact .cons (h c (by simp)) (ih fun d hd => h d (by simp [hd]))

theorem Spelled.mono (hR : ∀ c spelled, R c spelled → R' c spelled) (h : Spelled R cs written) :
    Spelled R' cs written := by
  induction h with
  | nil => exact .nil
  | cons hc _ ih => exact .cons (hR _ _ hc) ih

/-- A text is no longer than it is spelled when something stands for every character. -/
theorem Spelled.length_le (hR : ∀ c spelled, R c spelled → spelled ≠ [])
    (h : Spelled R cs written) : cs.length ≤ written.length := by
  induction h with
  | nil => exact Nat.le_refl _
  | cons hc _ ih =>
      have hpos := List.length_pos_of_ne_nil (hR _ _ hc)
      rw [List.length_append, List.length_cons]
      omega

end Text

end SecretResolver
