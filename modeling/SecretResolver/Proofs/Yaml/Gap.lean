/-
**What stands between two words.**

Gaps are read character by character.  Of what is written a gap is either a row of spaces, which it
keeps, or a row of line breaks with the indentation of the line after them, of which it keeps the
breaks.

Main definitions:

* `Gap.add` — a gap with one more character.

Main results:

* `Gap.scan_append` — a gap is read up to the next word;
* `Gap.foldl_spaces`, `Gap.foldl_breaks`, `Gap.text_breaks` — what a gap comes to.
-/

import SecretResolver.Proofs.Yaml.Place

set_option relaxedAutoImplicit false
set_option autoImplicit false

namespace SecretResolver

namespace Yaml

theorem isSpace_of_break {c : Char} (h : isBreak c = true) : isSpace c = true := by
  simp [isSpace, h]

/-- Of the characters that are shown only the space is a blank. -/
theorem isBlank_iff_of_shown {c : Char} (h : isShown c = true) : Text.isBlank c = true ↔ c = ' ' := by
  simp [Text.isBlank, not_blank_tab_of_shown h]

theorem isSpace_iff_of_shown {c : Char} (h : isShown c = true) :
    isSpace c = true ↔ c = ' ' ∨ isBreak c = true := by
  rw [isSpace, Bool.or_eq_true, isBlank_iff_of_shown h]

theorem isBreak_of_not_isSpace {c : Char} (h : isSpace c = false) : isBreak c = false := by
  simp only [isSpace, Bool.or_eq_false_iff] at h
  exact h.2

namespace Gap

variable {m : Mark} {g : Gap} {ws rest : List Char}

/-- A gap with one more character. -/
def add (g : Gap) (c : Char) : Gap := if isBreak c then g.lineBreak c else g.blank c

/-- A gap is read up to the next word. -/
theorem scan_append (indent : Int) (hws : ∀ c ∈ ws, isShown c = true ∧ isSpace c = true)
    (hrest : ∀ c ∈ rest.head?, isSpace c = false) (g : Gap) (m : Mark) {fuel : Nat}
    (hfuel : ws.length < fuel) :
    scan indent fuel g ⟨ws ++ rest, m⟩ = .ok (ws.foldl add g, ⟨rest, m.after ws⟩) := by
  induction ws generalizing g m fuel with
  | nil =>
      obtain ⟨fuel, rfl⟩ : ∃ n, fuel = n + 1 := ⟨fuel - 1, by omega⟩
      have hbreak : (⟨rest, m⟩ : Cursor).lineBreak? = Option.none :=
        Cursor.lineBreak?_of_not_break (fun c hc => isBreak_of_not_isSpace (hrest c hc)) m
      rw [List.nil_append, scan, hbreak]
      cases rest with
      | nil => rfl
      | cons c rest =>
          have hc := hrest c rfl
          simp only [isSpace, Bool.or_eq_false_iff] at hc
          simp [hc.1]
  | cons c ws ih =>
      rw [List.length_cons] at hfuel
      obtain ⟨fuel, rfl⟩ : ∃ n, fuel = n + 1 := ⟨fuel - 1, by omega⟩
      obtain ⟨hshown, hspace⟩ := hws c (by simp)
      have hrec := ih (fun d hd => hws d (by simp [hd]))
      rw [List.cons_append, scan]
      cases hb : isBreak c with
      | true =>
          rw [Cursor.lineBreak?_cons hshown hb]
          dsimp only
          rw [hrec _ _ (by omega)]
          simp [add, hb]
      | false =>
          have hblank : c = ' ' := by
            rcases (isSpace_iff_of_shown hshown).1 hspace with h | h
            · exact h
            · rw [hb] at h
              exact nomatch h
          subst hblank
          rw [Cursor.lineBreak?_of_not_break (by simp [hb])]
          have hnext : (⟨' ' :: (ws ++ rest), m⟩ : Cursor).next = ⟨ws ++ rest, m.step ' '⟩ :=
            Cursor.next_cons hb _ _
          simp only [Cursor.peek_cons, hnext]
          rw [if_neg (by decide), if_neg (by simp), hrec _ _ (by omega)]
          simp [add, hb]

/-- Spaces are kept where no line has ended. -/
theorem foldl_spaces (hws : ∀ c ∈ ws, c = ' ') (g : Gap) (hg : g.broken = false) :
    ws.foldl add g = { g with blanks := g.blanks ++ ws } := by
  induction ws generalizing g with
  | nil => simp
  | cons c ws ih =>
      obtain rfl := hws c (by simp)
      have hadd : g.add ' ' = { g with blanks := g.blanks ++ [' '] } := by
        have hnot : isBreak ' ' = false := by decide
        simp [add, hnot, blank, hg]
      rw [List.foldl_cons, hadd,
        ih (fun d hd => hws d (by simp [hd])) { g with blanks := g.blanks ++ [' '] } hg]
      simp

/-- After a line break spaces do not count. -/
theorem foldl_indentation (hws : ∀ c ∈ ws, c = ' ') (g : Gap) (hg : g.broken = true) :
    ws.foldl add g = g := by
  induction ws with
  | nil => rfl
  | cons c ws ih =>
      obtain rfl := hws c (by simp)
      have hadd : g.add ' ' = g := by
        have hnot : isBreak ' ' = false := by decide
        simp [add, hnot, blank, hg]
      rw [List.foldl_cons, hadd, ih fun d hd => hws d (by simp [hd])]

/-- All line breaks count. -/
theorem foldl_more (hws : ∀ c ∈ ws, isBreak c = true) (g : Gap) (hg : g.broken = true) :
    ws.foldl add g = { g with more := g.more ++ ws } := by
  induction ws generalizing g with
  | nil => simp
  | cons c ws ih =>
      have hadd : g.add c = { g with more := g.more ++ [c] } := by
        simp [add, hws c (by simp), lineBreak, hg]
      rw [List.foldl_cons, hadd,
        ih (fun d hd => hws d (by simp [hd])) { g with more := g.more ++ [c] } hg]
      simp

/-- Some line breaks and the indentation of the line after them. -/
theorem foldl_breaks {b : Char} {bs ss : List Char} (hb : isBreak b = true)
    (hbs : ∀ c ∈ bs, isBreak c = true) (hss : ∀ c ∈ ss, c = ' ') :
    (b :: bs ++ ss).foldl add none = ⟨[], some b, bs, true⟩ := by
  have hfirst : none.add b = ⟨[], some b, [], true⟩ := by simp [add, hb, lineBreak, none]
  rw [List.cons_append, List.foldl_cons, List.foldl_append, hfirst, foldl_more hbs _ rfl,
    foldl_indentation hss _ rfl]
  rfl

/-- A gap of line breaks none of which is a line feed is what it is. -/
theorem text_breaks {b : Char} (hb : b ≠ '\n') (bs : List Char) :
    (⟨[], some b, bs, true⟩ : Gap).text = b :: bs := by
  simp [text, hb]

end Gap

end Yaml

end SecretResolver
