/-
**Escapes are read back.**

A character that may not stand in double quotes as it is has a letter of its own or is given by its
number, in as many hexadecimal digits as its letter announces.

Main results:

* `hexNumber?_hexDigits` — a number is read back from its digits;
* `escape_letter`, `escape_number` — the two kinds of escapes are read;
* `escape_writeEscape` — **an escape is read back**, whatever comes after it;
* `length_writeEscape_le` — an escape takes at most four times the bytes of its character.
-/

import Mathlib.Tactic.Ring
import SecretResolver.Proofs.Yaml.Place

set_option relaxedAutoImplicit false
set_option autoImplicit false

namespace SecretResolver

namespace Yaml

/-! ### Digits -/

theorem hexDigit?_hexDigit : ∀ n < 16, Text.hexDigit? (hexDigit n) = some n := by
  decide

theorem isBreak_hexDigit : ∀ n < 16, isBreak (hexDigit n) = false := by
  decide

theorem isShown_hexDigit : ∀ n < 16, isShown (hexDigit n) = true := by
  decide

@[simp] theorem length_hexDigits (width n : Nat) : (hexDigits width n).length = width := by
  induction width with
  | zero => rfl
  | succ width ih => simp [hexDigits, ih]

theorem exists_of_mem_hexDigits {width n : Nat} {c : Char} (h : c ∈ hexDigits width n) :
    ∃ d < 16, c = hexDigit d := by
  induction width with
  | zero => exact absurd h (by simp [hexDigits])
  | succ width ih =>
      rcases List.mem_cons.1 h with rfl | h
      · exact ⟨_, Nat.mod_lt _ (by decide), rfl⟩
      · exact ih h

/-- Digits continue a number that has been read. -/
theorem foldl_hexDigits (width n a : Nat) :
    (hexDigits width n).foldl
        (fun n ch => n.bind fun n => (Text.hexDigit? ch).map fun d => 16 * n + d) (some a) =
      some (a * 16 ^ width + n % 16 ^ width) := by
  induction width generalizing a with
  | zero => simp [hexDigits, Nat.mod_one]
  | succ width ih =>
      have hdigit : Text.hexDigit? (hexDigit (n / Nat.pow 16 width % 16)) =
          some (n / 16 ^ width % 16) := hexDigit?_hexDigit _ (Nat.mod_lt _ (by decide))
      rw [hexDigits, List.foldl_cons, hdigit]
      refine (ih (16 * a + n / 16 ^ width % 16)).trans (congrArg some ?_)
      rw [Nat.pow_succ, Nat.mod_mul]
      ring

/-- A number is read back from its digits. -/
theorem hexNumber?_hexDigits {width n : Nat} (h : n < 16 ^ width) :
    hexNumber? (hexDigits width n) = some n := by
  rw [hexNumber?, foldl_hexDigits, Nat.mod_eq_of_lt h, Nat.zero_mul, Nat.zero_add]

/-- Only digits denote numbers. -/
theorem exists_hexDigit? {ds : List Char} {a : Option Nat} {n : Nat}
    (h : ds.foldl (fun n ch => n.bind fun n => (Text.hexDigit? ch).map fun d => 16 * n + d) a =
      some n) :
    a.isSome = true ∧ ∀ d ∈ ds, ∃ v, Text.hexDigit? d = some v := by
  induction ds generalizing a with
  | nil => exact ⟨by rw [show a = some n from h]; rfl, by simp⟩
  | cons d ds ih =>
      obtain ⟨hsome, hrest⟩ := ih h
      cases a with
      | none => exact nomatch hsome
      | some a =>
          refine ⟨rfl, ?_⟩
          intro e he
          rcases List.mem_cons.1 he with rfl | he
          · exact Option.isSome_iff_exists.1 (by simpa using hsome)
          · exact hrest e he

/-- A digit is a letter or a decimal digit. -/
theorem isAlphanumeric_of_hexDigit? {d : Char} {v : Nat} (h : Text.hexDigit? d = some v) :
    Text.isAlphanumeric d = true := by
  have hrange {a b c : Char} (hd : (a ≤ d && d ≤ b) = true) (hb : b ≤ c) :
      (a ≤ d && d ≤ c) = true := by
    simp only [Bool.and_eq_true, decide_eq_true_eq] at hd ⊢
    exact ⟨hd.1, Char.le_trans hd.2 hb⟩
  rw [Text.hexDigit?] at h
  simp only [Text.isAlphanumeric, Text.isDigit, Bool.or_eq_true]
  split at h
  · rename_i hd
    exact .inl (.inl hd)
  · split at h
    · rename_i hd
      exact .inl (.inr (hrange hd (by decide)))
    · split at h
      · rename_i hd
        exact .inr (hrange hd (by decide))
      · exact nomatch h

/-! ### Letters -/

theorem eq_of_toNat {c d : Char} {n : Nat} (h : c.toNat = n) (hd : d.toNat = n) : c = d :=
  Char.toNat_inj.1 (h.trans hd.symm)

/-- A letter stands for the character that it was chosen for. -/
theorem escapeLetter?_of_escapeLetterOf? {c letter : Char}
    (h : escapeLetterOf? c.toNat = some letter) :
    escapeLetter? letter = some c ∧ isBreak letter = false ∧ isShown letter = true := by
  unfold escapeLetterOf? at h
  split at h
  all_goals cases h
  all_goals
    rename_i hc
    exact ⟨congrArg some (eq_of_toNat (by decide) hc), by decide, by decide⟩

theorem isScalarValue_toNat (c : Char) : isScalarValue c.toNat = true := by
  have hc : c.toNat.isValidChar := c.valid
  simp only [isScalarValue, Bool.or_eq_true, Bool.and_eq_true, decide_eq_true_eq]
  rcases hc with hc | hc
  · exact .inl hc
  · exact .inr ⟨hc.1, by omega⟩

theorem le_utf8Size {c : Char} (h : 0x80 ≤ c.toNat) :
    2 ≤ c.utf8Size ∧ (0x800 ≤ c.toNat → 3 ≤ c.utf8Size) := by
  have hval : c.val.toNat = c.toNat := rfl
  simp only [Char.utf8Size, UInt32.le_iff_toNat_le, UInt32.toNat_ofNatLT, hval]
  split
  · omega
  · split
    · omega
    · split <;> omega

/-! ### Escapes -/

/-- An escape is a letter that stands for the character, or one that announces its digits. -/
theorem writeEscape_cases (c : Char) :
    (∃ letter, writeEscape c = ['\\', letter] ∧ escapeLetter? letter = some c ∧
        isBreak letter = false ∧ isShown letter = true) ∨
      ∃ letter width, writeEscape c = '\\' :: letter :: hexDigits width c.toNat ∧
        escapeLetter? letter = none ∧ escapeDigits? letter = some width ∧
        isBreak letter = false ∧ isShown letter = true ∧ c.toNat < 16 ^ width ∧
        width + 2 ≤ 4 * c.utf8Size := by
  have hlt : c.toNat < 0x110000 := by
    have hc : c.toNat.isValidChar := c.valid
    rcases hc with hc | hc <;> omega
  have hpos : 0 < c.utf8Size := c.utf8Size_pos
  simp only [writeEscape]
  cases hletter : escapeLetterOf? c.toNat with
  | some letter => exact .inl ⟨letter, rfl, escapeLetter?_of_escapeLetterOf? hletter⟩
  | none =>
      refine .inr ?_
      dsimp only
      split
      · exact ⟨'x', 2, rfl, rfl, rfl, rfl, rfl, by omega, by omega⟩
      · have hsize := le_utf8Size (c := c) (by omega)
        split
        · exact ⟨'u', 4, rfl, rfl, rfl, rfl, rfl, by omega, by omega⟩
        · exact ⟨'U', 8, rfl, rfl, rfl, rfl, rfl, by omega, by omega⟩

/-- An escape stands on one line and is shown as it is. -/
theorem line_of_mem_writeEscape {c d : Char} (h : d ∈ writeEscape c) :
    isBreak d = false ∧ isShown d = true := by
  rcases writeEscape_cases c with ⟨letter, hc, -, hb, hs⟩ | ⟨letter, width, hc, -, -, hb, hs, -⟩
  · rw [hc] at h
    simp only [List.mem_cons, List.not_mem_nil, or_false] at h
    rcases h with rfl | rfl
    · exact ⟨rfl, rfl⟩
    · exact ⟨hb, hs⟩
  · rw [hc] at h
    simp only [List.mem_cons] at h
    rcases h with rfl | rfl | h
    · exact ⟨rfl, rfl⟩
    · exact ⟨hb, hs⟩
    · obtain ⟨n, hn, rfl⟩ := exists_of_mem_hexDigits h
      exact ⟨isBreak_hexDigit n hn, isShown_hexDigit n hn⟩

/-- An escape takes at most four times the bytes of its character. -/
theorem length_writeEscape_le (c : Char) : (writeEscape c).length ≤ 4 * c.utf8Size := by
  have hpos : 0 < c.utf8Size := c.utf8Size_pos
  rcases writeEscape_cases c with ⟨letter, hc, -⟩ | ⟨letter, width, hc, -, -, -, -, -, hwidth⟩
  · rw [hc]
    simp only [List.length_cons, List.length_nil]
    omega
  · rw [hc, List.length_cons, List.length_cons, length_hexDigits]
    exact hwidth

/-- A letter after a backslash is read. -/
theorem escape_letter {letter c : Char} (hletter : escapeLetter? letter = some c)
    (hb : isBreak letter = false) (rest : List Char) (m : Mark) :
    escape ⟨'\\' :: letter :: rest, m⟩ = .ok (c, ⟨rest, m.after ['\\', letter]⟩) := by
  have hline : ∀ d ∈ ['\\', letter], isBreak d = false := by
    intro d hd
    simp only [List.mem_cons, List.not_mem_nil, or_false] at hd
    rcases hd with rfl | rfl
    · rfl
    · exact hb
  have hskip : (⟨'\\' :: letter :: rest, m⟩ : Cursor).skip 2 = ⟨rest, m.after ['\\', letter]⟩ :=
    Cursor.skip_append hline rest m
  simp only [escape, hletter]
  exact congrArg (fun c' => Except.ok (c, c')) hskip

/-- A number after a backslash and the letter that announces it is read. -/
theorem escape_number {letter c : Char} {ds : List Char} (hletter : escapeLetter? letter = none)
    (hdigits : escapeDigits? letter = some ds.length) (hnumber : hexNumber? ds = some c.toNat)
    (hline : ∀ d ∈ '\\' :: letter :: ds, isBreak d = false) (rest : List Char) (m : Mark) :
    escape ⟨'\\' :: letter :: ds ++ rest, m⟩ =
      .ok (c, ⟨rest, m.after ('\\' :: letter :: ds)⟩) := by
  have hskip : (⟨'\\' :: letter :: ds ++ rest, m⟩ : Cursor).skip ('\\' :: letter :: ds).length =
      ⟨rest, m.after ('\\' :: letter :: ds)⟩ := Cursor.skip_append hline rest m
  have htake : (ds ++ rest).take ds.length = ds := List.take_left
  simp only [escape, List.cons_append, hletter, hdigits, htake, if_true, hnumber,
    isScalarValue_toNat, Char.ofNat_toNat]
  refine congrArg (fun c' => Except.ok (c, c')) (Eq.trans ?_ hskip)
  simp [Cursor.skip, Nat.add_assoc, Nat.add_comm 2 ds.length]

/-- **An escape is read back**, whatever comes after it. -/
theorem escape_writeEscape (c : Char) (rest : List Char) (m : Mark) :
    escape ⟨writeEscape c ++ rest, m⟩ = .ok (c, ⟨rest, m.after (writeEscape c)⟩) := by
  have hline : ∀ d ∈ writeEscape c, isBreak d = false := fun d hd => (line_of_mem_writeEscape hd).1
  rcases writeEscape_cases c with ⟨letter, hc, hletter, hb, -⟩ |
    ⟨letter, width, hc, hletter, hdigits, -, -, hwidth, -⟩
  · rw [hc]
    exact escape_letter hletter hb rest m
  · rw [hc] at hline ⊢
    rw [← length_hexDigits width c.toNat] at hdigits
    exact escape_number hletter hdigits (hexNumber?_hexDigits hwidth) hline rest m

end Yaml

end SecretResolver
