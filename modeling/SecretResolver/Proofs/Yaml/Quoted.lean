/-
**Quoted scalars are read back.**

Between quotes a text is read word by word, with the gaps between the words.  What is written is
described by a relation that follows this reading, so one theorem covers both quotes; the texts
that are written in either of them are shown to fall under it.

Main definitions:

* `Quote.spell` — how a character is spelled between quotes;
* `Quote.parts` — the characters that stand between words;
* `Reads`, `Word` — what stands for a character and for a word;
* `Between` — a text and how it is written between quotes.

Main results:

* `quotedWords_between` — **what stands between quotes is read back**;
* `between_of_spelled` — whatever stands for its characters in double quotes;
* `quoted_writeSingle`, `quoted_writeDouble` — so are the quoted scalars that are written.
-/

import SecretResolver.Proofs.Text.Spelled
import SecretResolver.Proofs.Yaml.Escape
import SecretResolver.Proofs.Yaml.Gap
import SecretResolver.Proofs.Yaml.Traits

set_option relaxedAutoImplicit false
set_option autoImplicit false

namespace SecretResolver

namespace Yaml

variable {q : Quote} {m : Mark} {cs rest : List Char}

/-! ### Spelling -/

/-- How a character is spelled between quotes. -/
def Quote.spell : Quote → Char → List Char
  | .single, c => if c == '\x27' then [c, c] else [c]
  | .double, c => if !isShown c || isBreak c || c == '"' || c == '\\' then writeEscape c else [c]

/-- The characters that stand between words. -/
def Quote.parts : Quote → Char → Bool
  | .single, c => isSpace c
  | .double, c => c == ' '

theorem Quote.isSpace_char (q : Quote) : isSpace q.char = false := by
  cases q <;> rfl

theorem Quote.spell_of_parts {c : Char} (h : q.parts c = true) : q.spell c = [c] := by
  cases q with
  | single =>
      have hne : c ≠ '\x27' := by
        rintro rfl
        exact absurd h (by decide)
      simp [spell, hne]
  | double =>
      obtain rfl : c = ' ' := by simpa [parts] using h
      rfl

theorem Quote.flatMap_spell_of_parts (h : ∀ c ∈ cs, q.parts c = true) :
    cs.flatMap q.spell = cs := by
  induction cs with
  | nil => rfl
  | cons c cs ih =>
      rw [List.flatMap_cons, spell_of_parts (h c (by simp)), ih fun d hd => h d (by simp [hd])]
      rfl

/-- A character that stands in a word is not spelled with a separator in front. -/
theorem Quote.exists_spell {c : Char} (h : q.parts c = false) :
    ∃ d ds, q.spell c = d :: ds ∧ isSpace d = false := by
  cases q with
  | single =>
      by_cases hc : c = '\x27'
      · exact ⟨c, [c], by simp [spell, hc], h⟩
      · exact ⟨c, [], by simp [spell, hc], h⟩
  | double =>
      have hspace : c ≠ ' ' := by simpa [parts] using h
      rw [spell]
      split
      · exact ⟨'\\', _, rfl, rfl⟩
      · rename_i hc
        simp only [Bool.or_eq_true, Bool.not_eq_true', not_or, Bool.not_eq_false,
          Bool.not_eq_true] at hc
        refine ⟨c, [], rfl, ?_⟩
        rw [← Bool.not_eq_true, isSpace_iff_of_shown hc.1.1.1]
        simp [hspace, hc.1.1.2]

/-! ### Words -/

/-- A word with one more character in front. -/
def longer (c : Char) : Scan (List Char × Gap) → Scan (List Char × Gap)
  | .error m => .error m
  | .ok ((cs, g), cursor) => .ok ((c :: cs, g), cursor)

theorem quotedWord_raw {c : Char} (hs : isSpace c = false) (hquote : c ≠ q.char)
    (hslash : q = .double → c ≠ '\\') (fuel : Nat) (rest : List Char) (m : Mark) :
    quotedWord q (fuel + 1) ⟨c :: rest, m⟩ = longer c (quotedWord q fuel ⟨rest, m.step c⟩) := by
  have hnext : (⟨c :: rest, m⟩ : Cursor).next = ⟨rest, m.step c⟩ :=
    Cursor.next_cons (isBreak_of_not_isSpace hs) rest m
  cases q with
  | single =>
      have hc : (c == '\x27') = false := by simpa [Quote.char] using hquote
      simp only [quotedWord, Cursor.peek_cons, hs, hc, hnext, Quote.char]
      rfl
  | double =>
      have hc : (c == '"') = false := by simpa [Quote.char] using hquote
      have hc' : (c == '\\') = false := by simpa using hslash
      simp only [quotedWord, Cursor.peek_cons, hs, hc, hc', hnext, Quote.char]
      rfl

theorem quotedWord_quote (fuel : Nat) (rest : List Char) (m : Mark) :
    quotedWord .single (fuel + 1) ⟨'\x27' :: '\x27' :: rest, m⟩ =
      longer '\x27' (quotedWord .single fuel ⟨rest, m.after ['\x27', '\x27']⟩) := by
  have hskip : (⟨'\x27' :: '\x27' :: rest, m⟩ : Cursor).skip 2 =
      ⟨rest, m.after ['\x27', '\x27']⟩ := rfl
  simp only [quotedWord, Cursor.peek_cons, hskip]
  rfl

/-- A text stands for a character within a word. -/
def Reads (q : Quote) (c : Char) (written : List Char) : Prop :=
  written ≠ [] ∧ ∀ fuel rest m, quotedWord q (fuel + 1) ⟨written ++ rest, m⟩ =
    longer c (quotedWord q fuel ⟨rest, m.after written⟩)

theorem reads_raw {c : Char} (hs : isSpace c = false) (hquote : c ≠ q.char)
    (hslash : q = .double → c ≠ '\\') : Reads q c [c] :=
  ⟨List.cons_ne_nil _ _, quotedWord_raw hs hquote hslash⟩

/-- An escape stands for its character. -/
theorem reads_escape {c d : Char} {ds : List Char} (hd : isBreak d = false)
    (h : ∀ rest m, escape ⟨'\\' :: d :: ds ++ rest, m⟩ =
      .ok (c, ⟨rest, m.after ('\\' :: d :: ds)⟩)) : Reads .double c ('\\' :: d :: ds) := by
  refine ⟨List.cons_ne_nil _ _, fun fuel rest m => ?_⟩
  have hescape := h rest m
  simp only [List.cons_append] at hescape ⊢
  have hbreak : (⟨'\\' :: d :: (ds ++ rest), m⟩ : Cursor).next.at_ isBreak = false := hd
  simp only [quotedWord, Cursor.peek_cons, hbreak, hescape]
  rfl

/-- What is spelled stands for its character. -/
theorem reads_spell {c : Char} (h : q.parts c = false) : Reads q c (q.spell c) := by
  cases q with
  | single =>
      by_cases hc : c = '\x27'
      · subst hc
        exact ⟨by decide, quotedWord_quote⟩
      · have hspell : Quote.single.spell c = [c] := by simp [Quote.spell, hc]
        rw [hspell]
        exact reads_raw (q := .single) h hc fun hq => nomatch hq
  | double =>
      by_cases hc : (!isShown c || isBreak c || c == '"' || c == '\\') = true
      · rw [Quote.spell, if_pos hc]
        have hescape := escape_writeEscape c
        rcases writeEscape_cases c with ⟨d, h, -, hb, -⟩ | ⟨d, width, h, -, -, hb, -⟩
        all_goals
          rw [h] at hescape ⊢
          exact reads_escape hb hescape
      · obtain ⟨d, ds, hd, hs⟩ := Quote.exists_spell h
        rw [Quote.spell, if_neg hc] at hd ⊢
        obtain rfl := (List.cons.inj hd).1
        simp only [Bool.or_eq_true, beq_iff_eq, not_or] at hc
        exact reads_raw (q := .double) hs hc.1.2 fun _ => hc.2

/-- A word and how it is written. -/
def Word (q : Quote) : List Char → List Char → Prop := Text.Spelled (Reads q)

theorem word_spell {w : List Char} (h : ∀ c ∈ w, q.parts c = false) :
    Word q w (w.flatMap q.spell) :=
  Text.spelled_flatMap fun c hc => reads_spell (h c hc)

/-- A separator or the closing quote, which is not doubled. -/
def EndsWord (q : Quote) (rest : List Char) : Prop :=
  ∃ c cs, rest = c :: cs ∧
    (isSpace c = true ∨ c = q.char ∧ (q = .single → cs.head? ≠ some '\x27'))

/-- A word is read back up to what ends it. -/
theorem quotedWord_word {w written : List Char} (hw : Word q w written)
    (hend : EndsWord q rest) (m : Mark) {fuel : Nat} (hfuel : w.length < fuel) :
    quotedWord q fuel ⟨written ++ rest, m⟩ = .ok ((w, .none), ⟨rest, m.after written⟩) := by
  induction hw generalizing m fuel with
  | nil =>
      obtain ⟨fuel, rfl⟩ : ∃ n, fuel = n + 1 := ⟨fuel - 1, by omega⟩
      obtain ⟨c, cs, rfl, hc⟩ := hend
      rw [List.nil_append, Mark.after_nil]
      rcases hc with hs | ⟨rfl, hdouble⟩
      · simp only [quotedWord, Cursor.peek_cons, hs, if_true]
      · have hs := q.isSpace_char
        cases q with
        | single =>
            have hsees : (⟨'\x27' :: cs, m⟩ : Cursor).next.sees '\x27' = false := by
              simpa [Cursor.sees, Cursor.next, Cursor.peek] using hdouble rfl
            simp only [quotedWord, Cursor.peek_cons, Quote.char, hsees]
            rfl
        | double => rfl
  | cons hc _ ih =>
      rw [List.length_cons] at hfuel
      obtain ⟨fuel, rfl⟩ : ∃ n, fuel = n + 1 := ⟨fuel - 1, by omega⟩
      rw [List.append_assoc, hc.2, ih _ (by omega), Mark.after_append]
      rfl

/-! ### Texts -/

/-- A text and how it is written between quotes. -/
inductive Between (q : Quote) : List Char → List Char → Prop
  | word {w spelled : List Char} (hw : Word q w spelled) : Between q w spelled
  /-- A word, a gap that ends with a space, and what comes after it. -/
  | gap {w spelled ws text written : List Char} (hw : Word q w spelled)
      (hws : ∀ c ∈ ws, isShown c = true ∧ isSpace c = true) (hlast : ws.getLast? = some ' ')
      (hhead : ∀ c ∈ written.head?, isSpace c = false) (h : Between q text written) :
      Between q (w ++ (ws.foldl Gap.add .none).text ++ text) (spelled ++ ws ++ written)

theorem Cursor.atDocumentMark_of_column {c : Cursor} (h : 0 < c.mark.column) :
    c.atDocumentMark = false := by
  have hne : c.mark.column ≠ 0 := by omega
  simp [Cursor.atDocumentMark, Cursor.isRule, hne]

theorem Mark.column_after_space {ws : List Char} (h : ws.getLast? = some ' ') (m : Mark) :
    0 < (m.after ws).column := by
  obtain ⟨vs, rfl⟩ := List.getLast?_eq_some_iff.1 h
  rw [Mark.after_append, Mark.after_cons, Mark.step_of_line (by decide)]
  exact Nat.succ_pos _

/-- What is read after a word: the closing quote, or a gap and more words. -/
theorem quotedWords_of_word {w spelled : List Char} (hw : Word q w spelled)
    (hend : EndsWord q rest) (hm : 0 < m.column) (fuel : Nat) :
    quotedWords q (fuel + 1) ⟨spelled ++ rest, m⟩ =
      if (⟨rest, m.after spelled⟩ : Cursor).sees q.char then
        .ok (w, (⟨rest, m.after spelled⟩ : Cursor).next)
      else
        match Gap.scan 0 (rest.length + 1) .none ⟨rest, m.after spelled⟩ with
        | .error m => .error m
        | .ok (gap, c) =>
            match quotedWords q fuel c with
            | .error m => .error m
            | .ok (cs, c) => .ok (w ++ gap.text ++ cs, c) := by
  have hlength := hw.length_le fun _ _ hc => hc.1
  have hword : quotedWord q ((spelled ++ rest).length + 1) ⟨spelled ++ rest, m⟩ =
      .ok ((w, .none), ⟨rest, m.after spelled⟩) := by
    refine quotedWord_word hw hend m ?_
    rw [List.length_append]
    omega
  have hmark : (⟨spelled ++ rest, m⟩ : Cursor).atDocumentMark = false :=
    Cursor.atDocumentMark_of_column hm
  have hempty : (spelled ++ rest).isEmpty = false := by
    obtain ⟨c, cs, rfl, -⟩ := hend
    simp
  simp only [quotedWords, hmark, hempty, hword]
  rfl

/-- **What stands between quotes is read back** up to the closing quote, unless that is doubled. -/
theorem quotedWords_between {text written : List Char} (h : Between q text written)
    (hrest : q = .single → rest.head? ≠ some '\x27') (hm : 0 < m.column) {fuel : Nat}
    (hfuel : written.length < fuel) :
    quotedWords q fuel ⟨written ++ q.char :: rest, m⟩ =
      .ok (text, ⟨rest, m.after (written ++ [q.char])⟩) := by
  have hquote : isBreak q.char = false := isBreak_of_not_isSpace q.isSpace_char
  induction h generalizing m fuel with
  | word hw =>
      obtain ⟨fuel, rfl⟩ : ∃ n, fuel = n + 1 := ⟨fuel - 1, by omega⟩
      have hend : EndsWord q (q.char :: rest) := ⟨q.char, rest, rfl, .inr ⟨rfl, hrest⟩⟩
      rw [quotedWords_of_word hw hend hm, if_pos (by simp [Cursor.sees]), Mark.after_append,
        Cursor.next_cons hquote]
      rfl
  | @gap w spelled ws text written hw hws hlast hhead h ih =>
      obtain ⟨fuel, rfl⟩ : ∃ n, fuel = n + 1 := ⟨fuel - 1, by omega⟩
      obtain ⟨c, vs, rfl⟩ : ∃ c vs, ws = c :: vs :=
        List.exists_cons_of_ne_nil (by rintro rfl; exact absurd hlast (by simp))
      have hs : isSpace c = true := (hws c (by simp)).2
      have hend : EndsWord q (c :: vs ++ (written ++ q.char :: rest)) :=
        ⟨c, _, rfl, .inl hs⟩
      have hnot : c ≠ q.char := by
        rintro rfl
        rw [q.isSpace_char] at hs
        exact nomatch hs
      have hhead' : ∀ d ∈ (written ++ q.char :: rest).head?, isSpace d = false := by
        cases written with
        | nil =>
            rintro d ⟨⟩
            exact q.isSpace_char
        | cons d ds => exact hhead
      simp only [List.length_append, List.length_cons] at hfuel
      rw [List.append_assoc, List.append_assoc, quotedWords_of_word hw hend hm,
        if_neg (by simp [Cursor.sees, hnot]),
        Gap.scan_append 0 hws hhead' .none _ (by rw [List.length_append]; omega)]
      dsimp only
      rw [ih (Mark.column_after_space hlast _) (by omega)]
      simp [Mark.after_append]

/-- A quoted scalar is read back. -/
theorem quoted_between {text written : List Char} (h : Between q text written)
    (rest : List Char) (hrest : q = .single → rest.head? ≠ some '\x27') (m : Mark) :
    quoted q ⟨q.char :: written ++ q.char :: rest, m⟩ =
      .ok (text, ⟨rest, m.after (q.char :: written ++ [q.char])⟩) := by
  have hquote : isBreak q.char = false := isBreak_of_not_isSpace q.isSpace_char
  have hcolumn : 0 < (m.step q.char).column := by
    rw [Mark.step_of_line hquote]
    exact Nat.succ_pos _
  rw [quoted, List.cons_append, Cursor.next_cons hquote,
    quotedWords_between h hrest hcolumn (by simp only [List.length_cons, List.length_append]; omega)]
  rfl

/-! ### What is written -/

/-- A text is a word, a gap, and the rest that comes after the gap. -/
theorem exists_parts (p : Char → Bool) (cs : List Char) :
    ∃ w g rest, cs = w ++ g ++ rest ∧ (∀ c ∈ w, p c = false) ∧ (∀ c ∈ g, p c = true) ∧
      (∀ c ∈ rest.head?, p c = false) ∧ (g = [] → rest = []) := by
  induction cs with
  | nil => exact ⟨[], [], [], rfl, by simp, by simp, by simp, fun _ => rfl⟩
  | cons c cs ih =>
      obtain ⟨w, g, rest, rfl, hw, hg, hrest, hempty⟩ := ih
      cases hc : p c with
      | false =>
          refine ⟨c :: w, g, rest, rfl, ?_, hg, hrest, hempty⟩
          intro d hd
          rcases List.mem_cons.1 hd with rfl | hd
          · exact hc
          · exact hw d hd
      | true =>
          cases w with
          | nil =>
              refine ⟨[], c :: g, rest, rfl, by simp, ?_, hrest, fun h => nomatch h⟩
              intro d hd
              rcases List.mem_cons.1 hd with rfl | hd
              · exact hc
              · exact hg d hd
          | cons d w =>
              refine ⟨[], [c], d :: w ++ g ++ rest, rfl, by simp, by simpa using hc, ?_,
                fun h => nomatch h⟩
              rintro e ⟨⟩
              exact hw d (by simp)

theorem Gap.text_spaces {ws : List Char} (h : ∀ c ∈ ws, c = ' ') :
    (ws.foldl Gap.add .none).text = ws := by
  rw [Gap.foldl_spaces h .none rfl]
  simp [Gap.text, Gap.none]

/-- A word is followed by spaces and by the rest of the text. -/
theorem Between.spaces {w spelled g text written : List Char} (hw : Word q w spelled)
    (hg : ∀ c ∈ g, c = ' ') (hne : g ≠ []) (hhead : ∀ c ∈ written.head?, isSpace c = false)
    (h : Between q text written) : Between q (w ++ g ++ text) (spelled ++ g ++ written) := by
  have hlast : g.getLast? = some ' ' := by
    rw [List.getLast?_eq_some_getLast hne, hg _ (List.getLast_mem hne)]
  have hshown : ∀ c ∈ g, isShown c = true ∧ isSpace c = true := by
    intro c hc
    rw [hg c hc]
    exact ⟨rfl, rfl⟩
  have hgap := Between.gap hw hshown hlast hhead h
  rwa [Gap.text_spaces hg] at hgap

/-- Something that stands for a character of a word may come before the rest of a text. -/
theorem Between.cons {c : Char} {spelled text written : List Char} (hc : Reads q c spelled)
    (h : Between q text written) : Between q (c :: text) (spelled ++ written) := by
  cases h with
  | word hw => exact .word (.cons hc hw)
  | gap hw hws hlast hhead h =>
      have hgap := Between.gap (.cons hc hw) hws hlast hhead h
      simpa only [List.append_assoc, List.cons_append] using hgap

/-- What may stand for a character in double quotes: a space stands for itself. -/
def Stands (c : Char) (written : List Char) : Prop :=
  c = ' ' ∧ written = [' '] ∨
    Reads .double c written ∧ ∀ d ∈ written.head?, isSpace d = false

/-- What is spelled in double quotes is some spaces and a text that begins with a word. -/
theorem exists_between (h : Text.Spelled Stands cs rest) :
    ∃ g text written, cs = g ++ text ∧ rest = g ++ written ∧ (∀ c ∈ g, c = ' ') ∧
      (∀ c ∈ written.head?, isSpace c = false) ∧ Between .double text written := by
  induction h with
  | nil => exact ⟨[], [], [], rfl, rfl, by simp, by simp, .word .nil⟩
  | @cons c cs spelled rest hc _ ih =>
      obtain ⟨g, text, written, rfl, rfl, hg, hhead, hbetween⟩ := ih
      rcases hc with ⟨rfl, rfl⟩ | ⟨hreads, hfirst⟩
      · exact ⟨' ' :: g, text, written, rfl, rfl, by simpa using hg, hhead, hbetween⟩
      · refine ⟨[], c :: (g ++ text), spelled ++ (g ++ written), rfl, rfl, by simp, ?_, ?_⟩
        · rwa [List.head?_append_of_ne_nil _ hreads.1]
        · by_cases hne : g = []
          · subst hne
            exact hbetween.cons hreads
          · have hword : Word .double [c] (spelled ++ []) := .cons hreads .nil
            rw [List.append_nil] at hword
            have hspaces := hbetween.spaces hword hg hne hhead
            rwa [List.append_assoc, List.append_assoc] at hspaces

/-- What is spelled in double quotes is read back. -/
theorem between_of_spelled (h : Text.Spelled Stands cs rest) : Between .double cs rest := by
  obtain ⟨g, text, written, rfl, rfl, hg, hhead, hbetween⟩ := exists_between h
  by_cases hne : g = []
  · subst hne
    exact hbetween
  · exact hbetween.spaces .nil hg hne hhead

/-- Every text can be written in double quotes. -/
theorem between_double (cs : List Char) : Between .double cs (cs.flatMap Quote.double.spell) := by
  refine between_of_spelled (Text.spelled_flatMap fun c _ => ?_)
  cases hc : Quote.double.parts c with
  | true =>
      obtain rfl : c = ' ' := by simpa [Quote.parts] using hc
      exact .inl ⟨rfl, rfl⟩
  | false =>
      obtain ⟨d, ds, hd, hs⟩ := Quote.exists_spell hc
      refine .inr ⟨reads_spell hc, ?_⟩
      rw [hd]
      rintro e ⟨⟩
      exact hs

/-- **A text in double quotes is read back.** -/
theorem quoted_writeDouble (cs rest : List Char) (m : Mark) :
    quoted .double ⟨writeDouble cs ++ rest, m⟩ = .ok (cs, ⟨rest, m.after (writeDouble cs)⟩) := by
  have h := quoted_between (between_double cs) rest (fun hq => nomatch hq) m
  have hwritten : writeDouble cs =
      '"' :: cs.flatMap Quote.double.spell ++ ['"'] := rfl
  rw [hwritten, List.append_assoc]
  exact h

/-! ### Lines -/

/-- Characters of one line stay where they are. -/
theorem indentLines_append_line (h : ∀ c ∈ cs, isBreak c = false) (ds : List Char) :
    indentLines false (cs ++ ds) = cs ++ indentLines false ds := by
  induction cs with
  | nil => rfl
  | cons c cs ih =>
      have hc := h c (by simp)
      simp [indentLines, hc, ih fun d hd => h d (by simp [hd])]

/-- After line breaks a line begins anew. -/
theorem indentLines_append_breaks {b : Char} {bs : List Char} (hb : isBreak b = true)
    (hbs : ∀ c ∈ bs, isBreak c = true) (fresh : Bool) (ds : List Char) :
    indentLines fresh (b :: bs ++ ds) = b :: bs ++ indentLines true ds := by
  induction bs generalizing b fresh with
  | nil => simp [indentLines, hb]
  | cons c bs ih =>
      have hrec := ih (hbs c (by simp)) (fun d hd => hbs d (by simp [hd])) true
      rw [List.cons_append, indentLines, if_pos hb, hrec]
      rfl

theorem indentLines_fresh {c : Char} (hc : isBreak c = false) (cs : List Char) :
    indentLines true (c :: cs) = indentation ++ indentLines false (c :: cs) := by
  simp [indentLines, hc]

/-- Separators in a text that is written in single quotes are all alike. -/
theorem SingleText.spaces_or_breaks {g : List Char} (h : SingleText g)
    (hg : ∀ c ∈ g, isSpace c = true) :
    (∀ c ∈ g, c = ' ') ∨ ∀ c ∈ g, isBreak c = true := by
  obtain ⟨⟨hshown, hgaps⟩, hstarts, -⟩ := h
  induction g with
  | nil => exact .inl (by simp)
  | cons c g ih =>
      have hc := (isSpace_iff_of_shown (hshown c (by simp))).1 (hg c (by simp))
      cases g with
      | nil =>
          rcases hc with hc | hc
          · exact .inl (by simpa using hc)
          · exact .inr (by simpa using hc)
      | cons d g =>
          rw [List.isChain_cons_cons] at hgaps hstarts
          have hrec := ih (fun e he => hg e (List.mem_cons_of_mem _ he)) hstarts.2
            (fun e he => hshown e (List.mem_cons_of_mem _ he)) hgaps.2
          rcases hrec with hall | hall
          · rcases hc with rfl | hc
            · refine .inl ?_
              intro e he
              rcases List.mem_cons.1 he with rfl | he
              · rfl
              · exact hall e he
            · exact absurd (hall d (by simp)) (hstarts.1 hc)
          · rcases hc with rfl | hc
            · have hd := hgaps.1 rfl
              rw [hall d (by simp)] at hd
              exact nomatch hd
            · refine .inr ?_
              intro e he
              rcases List.mem_cons.1 he with rfl | he
              · exact hc
              · exact hall e he

theorem SingleText.of_append {as bs : List Char} (h : SingleText (as ++ bs)) :
    SingleText as ∧ SingleText bs := by
  obtain ⟨⟨hshown, hgaps⟩, hstarts, hfeed⟩ := h
  rw [List.isChain_append] at hgaps hstarts
  rw [List.mem_append, not_or] at hfeed
  exact ⟨⟨⟨fun c hc => hshown c (by simp [hc]), hgaps.1⟩, hstarts.1, hfeed.1⟩,
    ⟨fun c hc => hshown c (by simp [hc]), hgaps.2.1⟩, hstarts.2.1, hfeed.2⟩

/-- What stands between single quotes. -/
def singleBody (cs : List Char) : List Char :=
  indentLines false (cs.flatMap Quote.single.spell) ++ if endsLine cs then indentation else []

theorem writeSingle_eq (cs : List Char) :
    writeSingle cs = '\x27' :: singleBody cs ++ ['\x27'] := by
  rw [writeSingle, singleBody, List.cons_append]
  rfl

/-- What has one line is spelled on one line. -/
theorem isBreak_of_mem_spell (h : ∀ c ∈ cs, isBreak c = false) :
    ∀ d ∈ cs.flatMap Quote.single.spell, isBreak d = false := by
  intro d hd
  obtain ⟨c, hc, hd⟩ := List.mem_flatMap.1 hd
  have hdc : d = c := by
    rw [Quote.spell] at hd
    split at hd <;> simpa using hd
  rw [hdc]
  exact h c hc

theorem endsLine_append {as bs : List Char} (h : bs ≠ []) : endsLine (as ++ bs) = endsLine bs := by
  rw [endsLine, endsLine, List.getLast?_append_of_ne_nil _ h]

theorem endsLine_of_line (h : ∀ c ∈ cs, isBreak c = false) : endsLine cs = false := by
  rw [endsLine]
  cases hlast : cs.getLast? with
  | none => rfl
  | some c => exact h c (List.mem_of_getLast? hlast)

theorem endsLine_of_breaks (h : ∀ c ∈ cs, isBreak c = true) (hne : cs ≠ []) :
    endsLine cs = true := by
  rw [endsLine, List.getLast?_eq_some_getLast hne]
  exact h _ (List.getLast_mem hne)

/-- What has one line stands as it is spelled. -/
theorem singleBody_append_line (h : ∀ c ∈ cs, isBreak c = false) (rest : List Char) :
    singleBody (cs ++ rest) = cs.flatMap Quote.single.spell ++ singleBody rest := by
  have hends : endsLine (cs ++ rest) = endsLine rest := by
    cases rest with
    | nil =>
        rw [List.append_nil, endsLine_of_line h]
        rfl
    | cons c rest => exact endsLine_append (List.cons_ne_nil c rest)
  rw [singleBody, hends, List.flatMap_append, indentLines_append_line (isBreak_of_mem_spell h),
    singleBody, List.append_assoc]

theorem singleBody_of_line (h : ∀ c ∈ cs, isBreak c = false) :
    singleBody cs = cs.flatMap Quote.single.spell := by
  have hline := singleBody_append_line h []
  rwa [List.append_nil, show singleBody [] = [] from rfl, List.append_nil] at hline

/-- The line after some breaks is indented, and so is the closing quote if there is none. -/
theorem singleBody_breaks {w g : List Char} (hw : ∀ c ∈ w, isSpace c = false)
    (hg : ∀ c ∈ g, isBreak c = true) (hne : g ≠ []) {rest : List Char}
    (hrest : ∀ c ∈ rest.head?, isSpace c = false) :
    singleBody (w ++ g ++ rest) =
      w.flatMap Quote.single.spell ++ (g ++ indentation) ++ singleBody rest := by
  obtain ⟨b, bs, rfl⟩ := List.exists_cons_of_ne_nil hne
  have hspell : (b :: bs).flatMap Quote.single.spell = b :: bs :=
    Quote.flatMap_spell_of_parts fun c hc => isSpace_of_break (hg c hc)
  rw [singleBody, List.flatMap_append, List.flatMap_append, hspell, List.append_assoc,
    indentLines_append_line (isBreak_of_mem_spell fun c hc => isBreak_of_not_isSpace (hw c hc)),
    indentLines_append_breaks (hg b (by simp)) fun c hc => hg c (by simp [hc])]
  cases rest with
  | nil =>
      rw [List.append_nil, endsLine_append hne, endsLine_of_breaks hg hne]
      simp [indentLines, singleBody, endsLine]
  | cons c rest =>
      obtain ⟨d, ds, hd, hs⟩ := Quote.exists_spell (q := .single) (hrest c rfl)
      rw [endsLine_append (List.cons_ne_nil c rest), singleBody, List.flatMap_cons, hd]
      simp only [List.cons_append, List.append_assoc,
        indentLines_fresh (isBreak_of_not_isSpace hs)]

theorem isSpace_head_singleBody (h : ∀ c ∈ cs.head?, isSpace c = false) :
    ∀ c ∈ (singleBody cs).head?, isSpace c = false := by
  cases cs with
  | nil => simp [singleBody, indentLines, endsLine]
  | cons c cs =>
      obtain ⟨d, ds, hd, hs⟩ := Quote.exists_spell (q := .single) (h c rfl)
      have hline : isBreak d = false := isBreak_of_not_isSpace hs
      simp [singleBody, hd, indentLines, hline, hs]

/-- A text that may be written in single quotes is written so that it can be read back. -/
theorem between_single (cs : List Char) (h : SingleText cs) :
    Between .single cs (singleBody cs) := by
  induction hn : cs.length using Nat.strong_induction_on generalizing cs with
  | _ n ih =>
      subst hn
      obtain ⟨w, g, rest, rfl, hw, hg, hrest, hempty⟩ := exists_parts isSpace cs
      obtain ⟨hfront, hback⟩ := h.of_append
      have hgap : SingleText g := hfront.of_append.2
      have hhead := isSpace_head_singleBody hrest
      by_cases hne : g = []
      · obtain rfl := hempty hne
        subst hne
        rw [List.append_nil, List.append_nil,
          singleBody_of_line fun c hc => isBreak_of_not_isSpace (hw c hc)]
        exact .word (word_spell hw)
      · have hpos : 0 < g.length := List.length_pos_of_ne_nil hne
        have hrec := ih rest.length (by simp only [List.length_append]; omega) rest hback rfl
        rcases hgap.spaces_or_breaks hg with hspaces | hbreaks
        · have hline : ∀ c ∈ w ++ g, isBreak c = false := by
            intro c hc
            rcases List.mem_append.1 hc with hc | hc
            · exact isBreak_of_not_isSpace (hw c hc)
            · rw [hspaces c hc]
              rfl
          have hspell : g.flatMap Quote.single.spell = g := Quote.flatMap_spell_of_parts hg
          rw [singleBody_append_line hline, List.flatMap_append, hspell]
          exact .spaces (word_spell hw) hspaces hne hhead hrec
        · rw [singleBody_breaks hw hbreaks hne hrest]
          have hshown : ∀ c ∈ g ++ indentation, isShown c = true ∧ isSpace c = true := by
            intro c hc
            rcases List.mem_append.1 hc with hc | hc
            · exact ⟨hgap.all c hc, hg c hc⟩
            · obtain rfl := eq_space_of_mem_indentation c hc
              exact ⟨rfl, rfl⟩
          have hlast : (g ++ indentation).getLast? = some ' ' := by
            rw [List.getLast?_append_of_ne_nil _ (by decide)]
            rfl
          have htext : ((g ++ indentation).foldl Gap.add .none).text = g := by
            obtain ⟨b, bs, rfl⟩ := List.exists_cons_of_ne_nil hne
            have hfeed : b ≠ '\n' := by
              rintro rfl
              exact hgap.noLineFeed (by simp)
            rw [Gap.foldl_breaks (hbreaks b (by simp)) (fun c hc => hbreaks c (by simp [hc]))
              eq_space_of_mem_indentation, Gap.text_breaks hfeed]
          have hbetween := Between.gap (q := .single) (word_spell hw) hshown hlast hhead hrec
          rwa [htext] at hbetween

/-- **A text in single quotes is read back**, unless another one follows the closing quote. -/
theorem quoted_writeSingle (h : SingleText cs) (hrest : rest.head? ≠ some '\x27') (m : Mark) :
    quoted .single ⟨writeSingle cs ++ rest, m⟩ = .ok (cs, ⟨rest, m.after (writeSingle cs)⟩) := by
  rw [writeSingle_eq, List.append_assoc]
  exact quoted_between (between_single cs h) rest (fun _ => hrest) m

end Yaml

end SecretResolver
