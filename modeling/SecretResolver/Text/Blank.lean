/-
**Blank characters of all scripts.**

Main definitions:

* `Text.isWhite`, `Text.isBlank` — spaces, line ends and other blanks; those within a line;
* `Text.trimStart`, `Text.trimEnd`, `Text.trim` — a text without the blanks around it.

Main results:

* `Text.trimEnd_of_last`, `Text.trimEnd_append_white`, `Text.trimEnd_append` — what becomes of the end
  of a text.
-/

set_option relaxedAutoImplicit false
set_option autoImplicit false

namespace SecretResolver

namespace Text

/-- Whether a character is blank. -/
def isWhite (c : Char) : Bool :=
  let n := c.toNat
  (9 ≤ n && n ≤ 13) || n == 0x20 || n == 0x85 || n == 0xA0 || n == 0x1680 ||
    (0x2000 ≤ n && n ≤ 0x200A) || n == 0x2028 || n == 0x2029 || n == 0x202F || n == 0x205F ||
    n == 0x3000

/-- Whether a character is a blank within a line: a space or a tab. -/
def isBlank (c : Char) : Bool := c == ' ' || c == '\t'

/-- The characters without the blanks before them. -/
def trimStart (cs : List Char) : List Char := cs.dropWhile isWhite

/-- The characters without the blanks after them. -/
def trimEnd (cs : List Char) : List Char := (cs.reverse.dropWhile isWhite).reverse

theorem trimEnd_append_white {cs ds : List Char} (h : ∀ c ∈ ds, isWhite c = true) :
    trimEnd (cs ++ ds) = trimEnd cs := by
  have hreverse : ∀ c ∈ ds.reverse, isWhite c = true := fun c hc => h c (List.mem_reverse.1 hc)
  rw [trimEnd, List.reverse_append, List.dropWhile_append_of_pos hreverse, trimEnd]

theorem trimEnd_append_lineFeed (cs : List Char) : trimEnd (cs ++ ['\n']) = trimEnd cs := by
  refine trimEnd_append_white fun c hc => ?_
  rw [List.mem_singleton.1 hc]
  rfl

/-- A text that does not end with a blank stays as it is. -/
theorem trimEnd_of_last {cs : List Char} (h : ∀ c ∈ cs.getLast?, isWhite c = false) :
    trimEnd cs = cs := by
  rw [trimEnd]
  cases hcs : cs.reverse with
  | nil => rw [List.dropWhile_nil, List.reverse_nil, List.reverse_eq_nil_iff.1 hcs]
  | cons c rest =>
      have hlast : isWhite c = false := h c (by rw [List.getLast?_eq_head?_reverse, hcs]; rfl)
      rw [List.dropWhile_cons_of_neg (by simp [hlast]), ← hcs, List.reverse_reverse]

/-- A text is what is left of it and some blanks. -/
theorem exists_trimEnd (cs : List Char) :
    ∃ ws : List Char, (∀ c ∈ ws, isWhite c = true) ∧ trimEnd cs ++ ws = cs := by
  refine ⟨(cs.reverse.takeWhile isWhite).reverse, ?_, ?_⟩
  · intro c hc
    exact List.all_eq_true.1 List.all_takeWhile c (List.mem_reverse.1 hc)
  · rw [trimEnd, ← List.reverse_append, List.takeWhile_append_dropWhile, List.reverse_reverse]

/-- What is left of a text does not end with a blank. -/
theorem last_trimEnd (cs : List Char) : ∀ c ∈ (trimEnd cs).getLast?, isWhite c = false := by
  intro c hc
  rw [trimEnd, List.getLast?_reverse] at hc
  have hnot := List.head?_dropWhile_not isWhite cs.reverse
  rw [Option.mem_def.1 hc] at hnot
  simpa using hnot

/-- Before a text that is not blank altogether everything stays as it is. -/
theorem trimEnd_append {cs ds : List Char} (h : trimEnd ds ≠ []) :
    trimEnd (cs ++ ds) = cs ++ trimEnd ds := by
  obtain ⟨ws, hws, hds⟩ := exists_trimEnd ds
  have hlast : ∀ c ∈ (cs ++ trimEnd ds).getLast?, isWhite c = false := by
    rw [List.getLast?_append, List.getLast?_eq_some_getLast h, Option.some_or,
      ← List.getLast?_eq_some_getLast h]
    exact last_trimEnd ds
  calc trimEnd (cs ++ ds) = trimEnd ((cs ++ trimEnd ds) ++ ws) := by rw [List.append_assoc, hds]
    _ = trimEnd (cs ++ trimEnd ds) := trimEnd_append_white hws
    _ = cs ++ trimEnd ds := trimEnd_of_last hlast

/-- The characters without the blanks around them. -/
def trim (cs : List Char) : List Char := trimEnd (trimStart cs)

end Text

end SecretResolver
