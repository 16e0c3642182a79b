/-
**Cutting text at a character.**

References, key paths and environment names are lists of pieces between one fixed separator.
Texts are worked on as lists of characters; `String` appears only where a value is stored.

Main definitions:

* `Text.splitAll` — all pieces between the occurrences of a separator, at least one;
* `Text.splitFirst` — the pieces before and after the first occurrence, if there is one;
* `Text.joinWith` — the inverse of `splitAll`;
* `Text.dropStart` — what follows a given beginning;
* `Text.isDigits`, `Text.readNat`, `Text.hexDigit?` — ASCII decimal numerals, and hexadecimal digits.

Main results:

* `Text.joinWith_splitAll` — cutting loses nothing;
* `Text.splitAll_eq_iff` — the pieces are those without separator that join to the text;
* `Text.splitFirst_eq_some_iff` — the first cut is at the first separator;
* `Text.dropStart_eq_some_iff` — a beginning is removed exactly when it is there.
-/

set_option relaxedAutoImplicit false
set_option autoImplicit false

namespace SecretResolver

namespace Text

/-! ### Pieces between separators -/

/-- The pieces of `cs` between the occurrences of `sep`; a text without `sep` is its only piece. -/
def splitAll (sep : Char) : List Char → List (List Char)
  | [] => [[]]
  | c :: cs =>
      if c = sep then [] :: splitAll sep cs
      else
        match splitAll sep cs with
        | [] => [[c]]
        | p :: ps => (c :: p) :: ps

@[simp] theorem splitAll_nil (sep : Char) : splitAll sep [] = [[]] := rfl

theorem splitAll_ne_nil (sep : Char) (cs : List Char) : splitAll sep cs ≠ [] := by
  cases cs with
  | nil => simp
  | cons c cs =>
      by_cases h : c = sep
      · simp [splitAll, h]
      · cases hs : splitAll sep cs <;> simp [splitAll, h, hs]

/-- The pieces with `sep` between each two of them. -/
def joinWith (sep : Char) : List (List Char) → List Char
  | [] => []
  | [p] => p
  | p :: ps => p ++ sep :: joinWith sep ps

@[simp] theorem joinWith_singleton (sep : Char) (p : List Char) : joinWith sep [p] = p := rfl

theorem joinWith_cons {sep : Char} {p : List Char} {ps : List (List Char)} (h : ps ≠ []) :
    joinWith sep (p :: ps) = p ++ sep :: joinWith sep ps := by
  cases ps with
  | nil => exact absurd rfl h
  | cons q ps => rfl

/-- A beginning of the first piece is one of the text. -/
theorem joinWith_append_left (sep : Char) (a p : List Char) (ps : List (List Char)) :
    joinWith sep ((a ++ p) :: ps) = a ++ joinWith sep (p :: ps) := by
  cases ps with
  | nil => rfl
  | cons q ps => simp [joinWith]

/-- The joined text is the first piece and every further one behind a separator. -/
theorem joinWith_cons_eq_flatMap (sep : Char) (p : List Char) (ps : List (List Char)) :
    joinWith sep (p :: ps) = p ++ ps.flatMap fun q => sep :: q := by
  induction ps generalizing p with
  | nil => simp
  | cons q ps ih => rw [joinWith_cons (List.cons_ne_nil q ps), ih, List.flatMap_cons, List.cons_append]

theorem joinWith_eq_intercalate (sep : Char) (ps : List (List Char)) :
    joinWith sep ps = [sep].intercalate ps := by
  induction ps with
  | nil => rfl
  | cons p ps ih =>
      cases ps with
      | nil => simp
      | cons q ps =>
          rw [joinWith_cons (List.cons_ne_nil q ps), ih, List.intercalate_cons_cons]
          simp

/-- **Cutting loses nothing**: joining the pieces gives the text back. -/
theorem joinWith_splitAll (sep : Char) (cs : List Char) :
    joinWith sep (splitAll sep cs) = cs := by
  induction cs with
  | nil => rfl
  | cons c cs ih =>
      by_cases h : c = sep
      · rw [splitAll, if_pos h, joinWith_cons (splitAll_ne_nil sep cs), ih, h]
        rfl
      · cases hs : splitAll sep cs with
        | nil => exact absurd hs (splitAll_ne_nil sep cs)
        | cons p ps =>
            rw [hs] at ih
            cases ps with
            | nil => simp_all [splitAll]
            | cons q ps => simp_all [splitAll, joinWith]

/-- Any other character of the joined text is one of a piece. -/
theorem mem_joinWith {sep c : Char} (hc : c ≠ sep) {ps : List (List Char)} :
    c ∈ joinWith sep ps ↔ ∃ p ∈ ps, c ∈ p := by
  induction ps with
  | nil => simp [joinWith]
  | cons p ps ih =>
      cases ps with
      | nil => simp
      | cons q ps =>
          rw [joinWith_cons (List.cons_ne_nil q ps), List.mem_append, List.mem_cons, ih]
          simp [hc]

theorem splitAll_of_not_mem {sep : Char} {p : List Char} (h : sep ∉ p) : splitAll sep p = [p] := by
  induction p with
  | nil => rfl
  | cons c p ih =>
      rw [List.mem_cons, not_or] at h
      rw [splitAll, if_neg (Ne.symm h.1), ih h.2]

theorem splitAll_append {sep : Char} {p : List Char} (h : sep ∉ p) (cs : List Char) :
    splitAll sep (p ++ sep :: cs) = p :: splitAll sep cs := by
  induction p with
  | nil => rw [List.nil_append, splitAll, if_pos rfl]
  | cons c p ih =>
      rw [List.mem_cons, not_or] at h
      rw [List.cons_append, splitAll, if_neg (Ne.symm h.1), ih h.2]

/-- A text that is cut at one separator has the pieces of both its parts. -/
theorem splitAll_append_cons (sep : Char) (cs ds : List Char) :
    splitAll sep (cs ++ sep :: ds) = splitAll sep cs ++ splitAll sep ds := by
  induction cs with
  | nil => simp [splitAll]
  | cons c cs ih =>
      by_cases hc : c = sep
      · simp [splitAll, hc, ih]
      · cases hs : splitAll sep cs with
        | nil => exact absurd hs (splitAll_ne_nil sep cs)
        | cons p ps => simp [splitAll, hc, ih, hs]

/-- A beginning without separator belongs to the first piece. -/
theorem splitAll_append_left {sep : Char} {a cs p : List Char} {ps : List (List Char)}
    (h : sep ∉ a) (hs : splitAll sep cs = p :: ps) : splitAll sep (a ++ cs) = (a ++ p) :: ps := by
  induction a with
  | nil => exact hs
  | cons c a ih =>
      rw [List.mem_cons, not_or] at h
      rw [List.cons_append, splitAll, if_neg (Ne.symm h.1), ih h.2]
      rfl

theorem splitAll_joinWith {sep : Char} {ps : List (List Char)} (hne : ps ≠ [])
    (h : ∀ p ∈ ps, sep ∉ p) : splitAll sep (joinWith sep ps) = ps := by
  induction ps with
  | nil => exact absurd rfl hne
  | cons p ps ih =>
      have hp : sep ∉ p := h p (List.mem_cons_self ..)
      cases ps with
      | nil => exact splitAll_of_not_mem hp
      | cons q ps =>
          rw [joinWith_cons (List.cons_ne_nil q ps), splitAll_append hp,
            ih (List.cons_ne_nil q ps) fun r hr => h r (List.mem_cons_of_mem _ hr)]

/-- No piece holds a separator. -/
theorem not_mem_of_mem_splitAll {sep : Char} {cs p : List Char} (h : p ∈ splitAll sep cs) :
    sep ∉ p := by
  induction cs generalizing p with
  | nil =>
      rw [splitAll_nil, List.mem_singleton] at h
      simp [h]
  | cons c cs ih =>
      by_cases hc : c = sep
      · rw [splitAll, if_pos hc] at h
        rcases List.mem_cons.1 h with rfl | h
        · simp
        · exact ih h
      · cases hs : splitAll sep cs with
        | nil => exact absurd hs (splitAll_ne_nil sep cs)
        | cons q qs =>
            rw [splitAll, if_neg hc, hs] at h
            rcases List.mem_cons.1 h with rfl | h
            · have hq : sep ∉ q := ih (by simp [hs])
              simp [Ne.symm hc, hq]
            · exact ih (by simp [hs, h])

/-- **The pieces of a text are those without separator that join to it.** -/
theorem splitAll_eq_iff {sep : Char} {cs : List Char} {ps : List (List Char)} :
    splitAll sep cs = ps ↔ ps ≠ [] ∧ (∀ p ∈ ps, sep ∉ p) ∧ cs = joinWith sep ps := by
  constructor
  · rintro rfl
    exact ⟨splitAll_ne_nil sep cs, fun p => not_mem_of_mem_splitAll,
      (joinWith_splitAll sep cs).symm⟩
  · rintro ⟨hne, h, rfl⟩
    exact splitAll_joinWith hne h

/-- The pieces before and after the first `sep`. -/
def splitFirst (sep : Char) : List Char → Option (List Char × List Char)
  | [] => none
  | c :: cs =>
      if c = sep then some ([], cs)
      else (splitFirst sep cs).map fun (a, b) => (c :: a, b)

/-- The first cut is at the first separator. -/
theorem splitFirst_eq_some_iff {sep : Char} {cs a b : List Char} :
    splitFirst sep cs = some (a, b) ↔ cs = a ++ sep :: b ∧ sep ∉ a := by
  induction cs generalizing a with
  | nil => simp [splitFirst]
  | cons c cs ih =>
      by_cases hc : c = sep
      · subst hc
        rw [splitFirst, if_pos rfl, Option.some.injEq, Prod.mk.injEq]
        constructor
        · rintro ⟨rfl, rfl⟩
          simp
        · rintro ⟨h, hmem⟩
          cases a with
          | nil => exact ⟨rfl, (List.cons.inj h).2⟩
          | cons d a =>
              rw [List.cons_append] at h
              exact absurd (List.cons.inj h).1 (by rintro rfl; simp at hmem)
      · rw [splitFirst, if_neg hc, Option.map_eq_some_iff]
        constructor
        · rintro ⟨⟨a', b'⟩, hs, he⟩
          obtain ⟨rfl, rfl⟩ := Prod.mk.inj he
          obtain ⟨rfl, hmem⟩ := ih.1 hs
          exact ⟨by simp, by simp [hmem, Ne.symm hc]⟩
        · rintro ⟨h, hmem⟩
          cases a with
          | nil => exact absurd (List.cons.inj h).1 hc
          | cons d a =>
              obtain ⟨rfl, rfl⟩ := List.cons.inj h
              rw [List.mem_cons, not_or] at hmem
              exact ⟨(a, b), ih.2 ⟨rfl, hmem.2⟩, rfl⟩

/-! ### Beginnings -/

/-- What follows `start` in a text that begins with it. -/
def dropStart : List Char → List Char → Option (List Char)
  | [], cs => some cs
  | _ :: _, [] => none
  | s :: start, c :: cs => if s = c then dropStart start cs else none

/-- A beginning is removed exactly when it is there. -/
theorem dropStart_eq_some_iff {start cs rest : List Char} :
    dropStart start cs = some rest ↔ cs = start ++ rest := by
  induction start generalizing cs with
  | nil => simp [dropStart]
  | cons s start ih =>
      cases cs with
      | nil => simp [dropStart]
      | cons c cs =>
          by_cases h : s = c
          · simp [dropStart, h, ih]
          · simp [dropStart, h, Ne.symm h]

/-! ### Numerals -/

/-- The ASCII decimal digits. -/
def isDigit (c : Char) : Bool := '0' ≤ c && c ≤ '9'

/-- The value of a decimal digit. -/
def digitValue (c : Char) : Nat := c.toNat - '0'.toNat

/-- A text of decimal digits alone, at least one. -/
def isDigits (cs : List Char) : Bool := !cs.isEmpty && cs.all isDigit

/-- The number that a list of decimal digits denotes, most significant first. -/
def ofDigits (cs : List Char) : Nat := cs.foldl (fun n c => 10 * n + digitValue c) 0

/-- The number that a non-empty text of decimal digits denotes. -/
def readNat (cs : List Char) : Option Nat := if isDigits cs then some (ofDigits cs) else none

/-- The value of a hexadecimal digit. -/
def hexDigit? (c : Char) : Option Nat :=
  if '0' ≤ c && c ≤ '9' then some (c.toNat - 48)
  else if 'a' ≤ c && c ≤ 'f' then some (c.toNat - 87)
  else if 'A' ≤ c && c ≤ 'F' then some (c.toNat - 55)
  else none

/-! ### Letters -/

/-- The ASCII letters and digits. -/
def isAlphanumeric (c : Char) : Bool :=
  isDigit c || ('a' ≤ c && c ≤ 'z') || ('A' ≤ c && c ≤ 'Z')

/-- Whether a character may stand in a name without quotes. -/
def isNameChar (c : Char) : Bool := isAlphanumeric c || c == '_' || c == '-'

/-- The text with its ASCII capitals made small. -/
def lowerAscii (s : String) : String := String.ofList (s.toList.map Char.toLower)

/-- Two texts are the same up to the case of ASCII letters. -/
def sameIgnoringCase (s t : String) : Bool := lowerAscii s == lowerAscii t

/-- The texts of a list with `sep` between each two of them. -/
def commaList (items : List String) : String := String.intercalate ", " items

end Text

end SecretResolver
