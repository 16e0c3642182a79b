/-
**Places in a stream, character by character.**

As long as no two characters make up one line break, the place after some characters is found by
counting them one by one.  This holds of everything that is written, where a carriage return never
stands by itself, and so cursors can be followed through a text without looking into their marks.

Main definitions:

* `Mark.step`, `Mark.after` — the place after a character and after some characters.

Main results:

* `Mark.after_append`, `Mark.after_of_line`, `Mark.before_after` — counting on;
* `Cursor.next_cons`, `Cursor.takeWhile_append`, `Cursor.lineBreak?_cons` — cursors in these words.
-/

import SecretResolver.Proofs.Yaml.Release
import SecretResolver.Yaml.Writer

set_option relaxedAutoImplicit false
set_option autoImplicit false

namespace SecretResolver

namespace Yaml

/-! ### Characters -/

/-- A character that is shown and ends a line is one of three, which stay what they are. -/
theorem break_of_shown {c : Char} (hs : isShown c = true) (hb : isBreak c = true) :
    c = '\n' ∨ c = lineSeparator ∨ c = paragraphSeparator := by
  simp only [isBreak, Bool.or_eq_true, beq_iff_eq] at hb
  rcases hb with (((rfl | rfl) | rfl) | rfl) | rfl
  · exact .inl rfl
  · exact absurd hs (by decide)
  · exact absurd hs (by decide)
  · exact .inr (.inl rfl)
  · exact .inr (.inr rfl)

theorem isAllowed_of_shown {c : Char} (h : isShown c = true) : isAllowed c = true := by
  simp only [isShown, isAllowed, Bool.or_eq_true, Bool.and_eq_true, beq_iff_eq,
    decide_eq_true_eq] at h ⊢
  omega

theorem not_blank_tab_of_shown {c : Char} (h : isShown c = true) : c ≠ '\t' := by
  rintro rfl
  exact absurd h (by decide)

theorem eq_space_of_mem_indentation : ∀ c ∈ indentation, c = ' ' := by
  simp [indentation]

theorem isBreak_of_mem_indentation : ∀ c ∈ indentation, isBreak c = false := by
  intro c hc
  rw [eq_space_of_mem_indentation c hc]
  rfl

namespace Mark

variable {m m' : Mark} {cs ds : List Char}

/-- The place after a character. -/
def step (m : Mark) (c : Char) : Mark :=
  if isBreak c then ⟨m.index + 1, m.line + 1, 0⟩ else ⟨m.index + 1, m.line, m.column + 1⟩

/-- The place after some characters. -/
def after (m : Mark) (cs : List Char) : Mark := cs.foldl step m

@[simp] theorem after_nil (m : Mark) : m.after [] = m := rfl

@[simp] theorem after_cons (m : Mark) (c : Char) (cs : List Char) :
    m.after (c :: cs) = (m.step c).after cs := rfl

theorem after_append (m : Mark) (cs ds : List Char) : m.after (cs ++ ds) = (m.after cs).after ds :=
  List.foldl_append ..

theorem step_of_break {c : Char} (h : isBreak c = true) (m : Mark) :
    m.step c = ⟨m.index + 1, m.line + 1, 0⟩ := by
  simp [step, h]

theorem step_of_line {c : Char} (h : isBreak c = false) (m : Mark) :
    m.step c = ⟨m.index + 1, m.line, m.column + 1⟩ := by
  simp [step, h]

/-- Characters of one line count by columns. -/
theorem after_of_line (h : ∀ c ∈ cs, isBreak c = false) (m : Mark) :
    m.after cs = ⟨m.index + cs.length, m.line, m.column + cs.length⟩ := by
  induction cs generalizing m with
  | nil => rfl
  | cons c cs ih =>
      rw [after_cons, step_of_line (h c (by simp)), ih fun d hd => h d (by simp [hd])]
      simp only [List.length_cons, Mark.mk.injEq, true_and]
      omega

theorem column_after_of_line (h : ∀ c ∈ cs, isBreak c = false) (m : Mark) :
    (m.after cs).column = m.column + cs.length := by
  rw [after_of_line h]

/-- Reading on never leads back. -/
theorem before_after (m : Mark) (cs : List Char) : m.Before (m.after cs) := by
  induction cs generalizing m with
  | nil => exact ⟨Nat.le_refl _, Nat.le_refl _⟩
  | cons c cs ih =>
      have hstep : m.Before (m.step c) := by
        unfold step
        split
        · exact ⟨Nat.le_succ _, Nat.le_succ _⟩
        · exact ⟨Nat.le_refl _, Nat.le_succ _⟩
      exact hstep.trans (ih (m.step c))

end Mark

namespace Cursor

variable {m : Mark} {c : Char} {cs rest : List Char}

@[simp] theorem peek_nil (m : Mark) : (⟨[], m⟩ : Cursor).peek = none := rfl

@[simp] theorem peek_cons (c : Char) (rest : List Char) (m : Mark) :
    (⟨c :: rest, m⟩ : Cursor).peek = some c := rfl

theorem next_cons (h : isBreak c = false) (rest : List Char) (m : Mark) :
    (⟨c :: rest, m⟩ : Cursor).next = ⟨rest, m.step c⟩ := by
  rw [Mark.step_of_line h]
  rfl

/-- Some characters of one line are passed over. -/
theorem skip_append (h : ∀ c ∈ cs, isBreak c = false) (rest : List Char) (m : Mark) :
    (⟨cs ++ rest, m⟩ : Cursor).skip cs.length = ⟨rest, m.after cs⟩ := by
  rw [Mark.after_of_line h]
  simp [skip]

/-- All characters of one line are taken that satisfy a condition. -/
theorem takeWhile_append {p : Char → Bool} (hp : ∀ c ∈ cs, p c = true)
    (hline : ∀ c ∈ cs, isBreak c = false) (hrest : ∀ c ∈ rest.head?, p c = false)
    (m : Mark) : (⟨cs ++ rest, m⟩ : Cursor).takeWhile p = (cs, ⟨rest, m.after cs⟩) := by
  have htake : rest.takeWhile p = [] := by
    cases rest with
    | nil => rfl
    | cons c rest => simp [hrest c rfl]
  have hdrop : rest.dropWhile p = rest := by
    cases rest with
    | nil => rfl
    | cons c rest => simp [hrest c rfl]
  rw [Mark.after_of_line hline]
  simp [takeWhile, List.takeWhile_append_of_pos hp, List.dropWhile_append_of_pos hp, htake, hdrop]

/-- A line break that stays what it is. -/
theorem lineBreak?_cons (hs : isShown c = true) (hb : isBreak c = true) (rest : List Char)
    (m : Mark) : (⟨c :: rest, m⟩ : Cursor).lineBreak? = some (c, ⟨rest, m.step c⟩) := by
  rw [Mark.step_of_break hb]
  rcases break_of_shown hs hb with rfl | rfl | rfl
  · rfl
  · rfl
  · rfl

theorem lineBreak?_of_not_break (h : ∀ c ∈ rest.head?, isBreak c = false) (m : Mark) :
    (⟨rest, m⟩ : Cursor).lineBreak? = none := by
  cases rest with
  | nil => rfl
  | cons c rest =>
      have hb := h c rfl
      have hsep : (c == lineSeparator || c == paragraphSeparator) = false := by
        simp only [isBreak, Bool.or_eq_false_iff] at hb
        simp only [hb, Bool.or_self]
      have hr : c ≠ '\r' := by
        rintro rfl
        exact absurd hb (by decide)
      unfold lineBreak?
      split
      · rename_i heq
        exact absurd (List.cons.inj heq).1 hr
      · rename_i heq
        obtain ⟨rfl, rfl⟩ := List.cons.inj heq
        simp [hb, hsep]
      · rfl

end Cursor

end Yaml

end SecretResolver
