/-
**What the choice of a form promises.**

A text is gone through once before it is written, and the form is chosen by what was seen.  Here
this is turned into statements about the text itself: which characters it is made of, and which of
them stand side by side.

Main definitions:

* `Tied`, `NoSpaceBreak`, `NoBreakSpace`, `NoComment` — which characters stand side by side;
* `PlainText`, `SingleText`, `LiteralText` — the texts that can stand in each of three forms.

Main results:

* `surveyFrom_indicators`, `surveyFrom_spaceBreak`, `surveyFrom_breakSpace` — what going through a
  text has seen;
* `formOf_plain`, `formOf_single`, `formOf_literal` — **what a form promises** of its text.
-/

import Mathlib.Data.List.Chain
import SecretResolver.Proofs.Yaml.Place

set_option relaxedAutoImplicit false
set_option autoImplicit false

namespace SecretResolver

namespace Yaml

/-! ### Statements about texts -/

/-- Every colon in a text is followed by a character that is no separator. -/
def Tied : List Char → Prop
  | [] => True
  | c :: cs => (c = ':' → ∃ d ∈ cs.head?, isSpace d = false) ∧ Tied cs

/-- No space stands before a line break. -/
def NoSpaceBreak (a b : Char) : Prop := a = ' ' → isBreak b = false

/-- No space stands after a line break. -/
def NoBreakSpace (a b : Char) : Prop := isBreak a = true → b ≠ ' '

/-- No number sign stands after a separator. -/
def NoComment (a b : Char) : Prop := isSpace a = true → b ≠ '#'

/-! ### Going through a text -/

/-- What has been seen when a text was gone through and nothing stands in the way of a form. -/
theorem surveyFrom_indicators {s : Survey} {before : Char} {cs : List Char}
    (h : (surveyFrom s before cs).indicators = false) :
    s.indicators = false ∧ (before :: cs).IsChain NoComment ∧ Tied cs := by
  induction cs generalizing s before with
  | nil => exact ⟨h, .singleton _, trivial⟩
  | cons c cs ih =>
      obtain ⟨hs, hchain, htied⟩ := ih h
      simp only [Bool.or_eq_false_iff, forbidsLater, Bool.and_eq_false_iff, beq_eq_false_iff_ne,
        ne_eq] at hs
      obtain ⟨hs, hcolon, hcomment⟩ := hs
      refine ⟨hs, .cons_cons ?_ hchain, ?_, htied⟩
      · rintro hspace rfl
        rcases hcomment with hno | hno
        · exact hno rfl
        · rw [hspace] at hno
          exact absurd hno (by simp)
      · rintro rfl
        rcases hcolon with hno | hno
        · exact absurd rfl hno
        · cases cs with
          | nil => exact absurd hno (by decide)
          | cons d cs => exact ⟨d, rfl, by simpa [separatorAhead] using hno⟩

theorem surveyFrom_special {s : Survey} {before : Char} {cs : List Char}
    (h : (surveyFrom s before cs).special = false) :
    s.special = false ∧ ∀ c ∈ cs, isShown c = true := by
  induction cs generalizing s before with
  | nil => exact ⟨h, by simp⟩
  | cons c cs ih =>
      obtain ⟨hs, hall⟩ := ih h
      simp only [Bool.or_eq_false_iff, Bool.not_eq_false'] at hs
      refine ⟨hs.1, ?_⟩
      intro d hd
      rcases List.mem_cons.1 hd with rfl | hd
      · exact hs.2
      · exact hall d hd

theorem surveyFrom_breaks (s : Survey) (before : Char) (cs : List Char) :
    (surveyFrom s before cs).breaks = (s.breaks || cs.any isBreak) := by
  induction cs generalizing s before with
  | nil => simp [surveyFrom]
  | cons c cs ih => rw [surveyFrom, ih, List.any_cons, Bool.or_assoc]

theorem surveyFrom_spaceBreak {s : Survey} {before : Char} {cs : List Char}
    (h : (surveyFrom s before cs).spaceBreak = false) :
    s.spaceBreak = false ∧ (before :: cs).IsChain NoSpaceBreak := by
  induction cs generalizing s before with
  | nil => exact ⟨h, .singleton _⟩
  | cons c cs ih =>
      obtain ⟨hs, hchain⟩ := ih h
      simp only [Bool.or_eq_false_iff, Bool.and_eq_false_iff, beq_eq_false_iff_ne, ne_eq] at hs
      refine ⟨hs.1, .cons_cons ?_ hchain⟩
      rintro rfl
      rcases hs.2 with hno | hno
      · exact hno
      · exact absurd rfl hno

theorem surveyFrom_breakSpace {s : Survey} {before : Char} {cs : List Char}
    (h : (surveyFrom s before cs).breakSpace = false) :
    s.breakSpace = false ∧ (before :: cs).IsChain NoBreakSpace := by
  induction cs generalizing s before with
  | nil => exact ⟨h, .singleton _⟩
  | cons c cs ih =>
      obtain ⟨hs, hchain⟩ := ih h
      simp only [Bool.or_eq_false_iff, Bool.and_eq_false_iff, beq_eq_false_iff_ne, ne_eq] at hs
      refine ⟨hs.1, .cons_cons ?_ hchain⟩
      rintro hb rfl
      rcases hs.2 with hno | hno
      · exact hno rfl
      · rw [hb] at hno
        exact absurd hno (by simp)

theorem surveyFrom_leadingSpace (s : Survey) (before : Char) (cs : List Char) :
    (surveyFrom s before cs).leadingSpace = s.leadingSpace := by
  induction cs generalizing s before with
  | nil => rfl
  | cons c cs ih => rw [surveyFrom, ih]

theorem surveyFrom_trailingSpace (s : Survey) (before : Char) (cs : List Char) :
    (surveyFrom s before cs).trailingSpace = ((before :: cs).getLast? == some ' ') := by
  induction cs generalizing s before with
  | nil => rfl
  | cons c cs ih => rw [surveyFrom, ih, List.getLast?_cons_cons]

/-! ### Forms -/

variable {s : String}

/-- A text of characters that are shown, where no space stands before a line break. -/
structure Shown (cs : List Char) : Prop where
  all : ∀ c ∈ cs, isShown c = true
  gaps : cs.IsChain NoSpaceBreak

/-- A text that may be written as it is, on one line. -/
structure PlainText (cs : List Char) : Prop where
  shown : ∀ c ∈ cs, isShown c = true
  line : ∀ c ∈ cs, isBreak c = false
  comment : cs.IsChain NoComment
  tied : Tied cs
  ends : cs.getLast? ≠ some ' '
  begins : ∃ c ds, cs = c :: ds ∧ c ≠ ' ' ∧ forbidsFirst c (separatorAhead ds) = false ∧
    ((c = '-' ∨ c = '.') → cs.take 3 ≠ [c, c, c])

/-- What has been seen of a text all of which is shown and has no space before a line break. -/
theorem shown_of_survey {c : Char} {cs : List Char}
    (h : ((survey c cs).spaceBreak || (survey c cs).special) = false) : Shown (c :: cs) := by
  rw [Bool.or_eq_false_iff] at h
  obtain ⟨-, hgaps⟩ := surveyFrom_spaceBreak h.1
  obtain ⟨hc, hcs⟩ := surveyFrom_special h.2
  have hc' : isShown c = true := by simpa using hc
  refine ⟨?_, hgaps⟩
  intro d hd
  rcases List.mem_cons.1 hd with rfl | hd
  · exact hc'
  · exact hcs d hd

theorem plainText_of_traits {cs : List Char} (hne : cs ≠ []) (h : (Traits.of cs).plain = true) :
    PlainText cs := by
  cases cs with
  | nil => exact absurd rfl hne
  | cons c cs =>
      simp only [Traits.of, Bool.not_eq_true', Bool.or_eq_false_iff] at h
      obtain ⟨⟨⟨⟨hindicators, hbreaks⟩, ⟨⟨hleading, -⟩, htrailing⟩, -⟩, -⟩, hspace, hspecial⟩ := h
      have hshown : Shown (c :: cs) := shown_of_survey (Bool.or_eq_false_iff.2 ⟨hspace, hspecial⟩)
      obtain ⟨hfirst, hcomment, htied⟩ := surveyFrom_indicators hindicators
      simp only [Bool.or_eq_false_iff, Bool.and_eq_false_iff, beq_eq_false_iff_ne, ne_eq] at hfirst
      refine ⟨hshown.all, ?_, hcomment, ⟨?_, htied⟩, ?_, c, cs, rfl, ?_, hfirst.1, ?_⟩
      · rw [survey, surveyFrom_breaks] at hbreaks
        have hany : (c :: cs).any isBreak = false := hbreaks
        simpa using hany
      · -- a colon in front that a separator follows forbids plain text as well
        rintro rfl
        have hcolon := hfirst.1
        cases cs with
        | nil => exact absurd hcolon (by decide)
        | cons d cs =>
            refine ⟨d, rfl, ?_⟩
            simpa [forbidsFirst, separatorAhead] using hcolon
      · rw [survey, surveyFrom_trailingSpace, beq_eq_false_iff_ne] at htrailing
        exact htrailing
      · rw [survey, surveyFrom_leadingSpace, beq_eq_false_iff_ne] at hleading
        exact hleading
      · intro hc htake
        rcases hfirst.2 with hno | ⟨hdash, hdot⟩
        · exact hno htake.symm
        · rcases hc with hc | hc
          · exact hdash hc
          · exact hdot hc

/-- A text that may be written in single quotes. -/
structure SingleText (cs : List Char) : Prop extends Shown cs where
  starts : cs.IsChain NoBreakSpace
  noLineFeed : '\n' ∉ cs

/-- A text that may be written line by line. -/
structure LiteralText (cs : List Char) : Prop extends Shown cs where
  ends : cs.getLast? ≠ some ' '
  lineFeed : '\n' ∈ cs

/-- A plain scalar that is a text is the text that it looks like. -/
theorem eq_of_scalarOf?_text {t : String} (h : scalarOf? s = some (.text t)) : t = s := by
  have hreal : ∀ u, realOrText s = .text u → u = s := by
    intro u hu
    unfold realOrText at hu
    split at hu
    · exact (Scalar.text.inj hu).symm
    · split at hu
      · exact nomatch hu
      · exact (Scalar.text.inj hu).symm
  unfold scalarOf? at h
  split at h
  · exact nomatch h
  · split at h
    · exact nomatch h
    · split at h
      · split at h
        · exact nomatch h
        · split at h
          · exact nomatch h
          · exact hreal t (Option.some.inj h)
      · exact hreal t (Option.some.inj h)

/-- A text that is not ambiguous is read as itself, and is not empty. -/
theorem scalarOf?_of_not_isAmbiguous (h : isAmbiguous s = false) :
    scalarOf? s = some (.text s) ∧ s.toList ≠ [] := by
  unfold isAmbiguous at h
  split at h
  · rename_i t ht
    obtain rfl := eq_of_scalarOf?_text ht
    refine ⟨ht, ?_⟩
    intro hempty
    obtain rfl : t = "" := String.toList_eq_nil_iff.1 hempty
    exact absurd ht (by decide)
  · exact absurd h (by simp)

/-- **What a plain text promises**: it is read as the text that it looks like, and nothing in it
means something else. -/
theorem formOf_plain (h : formOf s = .plain) :
    scalarOf? s = some (.text s) ∧ PlainText s.toList := by
  simp only [formOf] at h
  split at h
  · split at h <;> exact nomatch h
  · split at h
    · rename_i hplain
      simp only [Bool.and_eq_true, Bool.not_eq_true'] at hplain
      obtain ⟨htext, hne⟩ := scalarOf?_of_not_isAmbiguous hplain.1
      exact ⟨htext, plainText_of_traits hne hplain.2⟩
    · split at h <;> exact nomatch h

/-- What a text in single quotes promises. -/
theorem formOf_single (h : formOf s = .single) : SingleText s.toList := by
  simp only [formOf] at h
  split at h
  · split at h <;> exact nomatch h
  · rename_i hfeed
    have hfeed : '\n' ∉ s.toList := by simpa using hfeed
    split at h
    · exact nomatch h
    · split at h
      · rename_i hsingle
        generalize s.toList = cs at hfeed hsingle ⊢
        cases cs with
        | nil => exact ⟨⟨by simp, .nil⟩, .nil, hfeed⟩
        | cons c cs =>
            simp only [Traits.of, Bool.not_eq_true', Bool.or_eq_false_iff] at hsingle
            obtain ⟨hbreak, hhidden⟩ := hsingle
            have hshown : Shown (c :: cs) := shown_of_survey (Bool.or_eq_false_iff.2 hhidden)
            exact ⟨hshown, (surveyFrom_breakSpace hbreak).2, hfeed⟩
      · exact nomatch h

/-- What a block scalar promises. -/
theorem formOf_literal (h : formOf s = .literal) : LiteralText s.toList := by
  simp only [formOf] at h
  split at h
  · rename_i hfeed
    have hfeed : '\n' ∈ s.toList := by simpa using hfeed
    split at h
    · rename_i hblock
      generalize s.toList = cs at hfeed hblock ⊢
      cases cs with
      | nil => exact absurd hfeed (by simp)
      | cons c cs =>
          simp only [Traits.of, Bool.not_eq_true', Bool.or_eq_false_iff] at hblock
          obtain ⟨htrailing, hhidden⟩ := hblock
          have hshown : Shown (c :: cs) := shown_of_survey (Bool.or_eq_false_iff.2 hhidden)
          rw [survey, surveyFrom_trailingSpace, beq_eq_false_iff_ne] at htrailing
          exact ⟨hshown, htrailing, hfeed⟩
    · exact nomatch h
  · split at h
    · exact nomatch h
    · split at h <;> exact nomatch h

end Yaml

end SecretResolver
