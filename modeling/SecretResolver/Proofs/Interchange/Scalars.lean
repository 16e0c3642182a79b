/-
**Texts for JSON and for YAML: scalars read as YAML.**

What stands between quotes in JSON is a scalar in double quotes, on one line.  The words of JSON and
its numbers are plain scalars; blanks after them are read along with them, up to what ends them.

Main definitions:

* `Yaml.Bare` — the words of which scalars without quotes are made;
* `Yaml.Stops` — what ends a plain scalar after blanks.

Main results:

* `Yaml.quoted_quotation` — **what stands between quotes is read**;
* `Yaml.plain_bare` — **a scalar without quotes is read**.
-/

import SecretResolver.Proofs.Interchange.Grammar
import SecretResolver.Proofs.Text.Decimal
import SecretResolver.Proofs.Yaml.PlainScalar

set_option relaxedAutoImplicit false
set_option autoImplicit false

namespace SecretResolver

namespace Yaml

open Interchange (Blanks Inline isOrdinary escapes quotation)

variable {m stop : Mark} {cs w ws rest : List Char}

/-! ### Characters -/

/-- The characters of words and numbers. -/
def isBare (c : Char) : Bool := Text.isAlphanumeric c || c == '-'

theorem ne_of_isBare {c d : Char} (hc : isBare c = true) (hd : isBare d = false) : c ≠ d := by
  rintro rfl
  rw [hc] at hd
  exact nomatch hd

theorem isSpace_of_isBare {c : Char} (h : isBare c = true) : isSpace c = false := by
  have hne (d : Char) (hd : isBare d = false) : c ≠ d := ne_of_isBare h hd
  simp [isSpace, Text.isBlank, isBreak, hne ' ' rfl, hne '\t' rfl, hne '\n' rfl, hne '\r' rfl,
    hne nextLine rfl, hne lineSeparator rfl, hne paragraphSeparator rfl]

theorem isShown_of_isBare {c : Char} (h : isBare c = true) : isShown c = true := by
  simp only [isBare, Text.isAlphanumeric, Text.isDigit, Bool.or_eq_true, Bool.and_eq_true,
    decide_eq_true_eq, beq_iff_eq, Char.le_def, UInt32.le_iff_toNat_le] at h
  simp only [isShown, Bool.or_eq_true, Bool.and_eq_true, decide_eq_true_eq, Char.toNat]
  rcases h with ((h | h) | h) | rfl
  · exact .inl (.inl (.inl (.inr ⟨Nat.le_trans (by decide) h.1, Nat.le_trans h.2 (by decide)⟩)))
  · exact .inl (.inl (.inl (.inr ⟨Nat.le_trans (by decide) h.1, Nat.le_trans h.2 (by decide)⟩)))
  · exact .inl (.inl (.inl (.inr ⟨Nat.le_trans (by decide) h.1, Nat.le_trans h.2 (by decide)⟩)))
  · decide

theorem isFlowIndicator_of_isBare {c : Char} (h : isBare c = true) :
    isFlowIndicator c = false := by
  have hne (d : Char) (hd : isBare d = false) : c ≠ d := ne_of_isBare h hd
  simp [isFlowIndicator, hne ',' rfl, hne '[' rfl, hne ']' rfl, hne '\x7b' rfl, hne '\x7d' rfl]

/-! ### Within quotes -/

/-- What may stand for a character stands on one line of a stream. -/
theorem line_of_stands {c : Char} {written : List Char} (h : Interchange.Stands c written) :
    ∀ d ∈ written, isBreak d = false ∧ isAllowed d = true := by
  cases h with
  | ordinary h =>
      simp only [isOrdinary, Bool.and_eq_true, Bool.not_eq_true'] at h
      intro d hd
      rw [List.mem_singleton.1 hd]
      exact ⟨h.1.1.2, h.1.1.1.2⟩
  | @letter l c h =>
      have hl : ∀ p ∈ escapes, isBreak p.1 = false ∧ isAllowed p.1 = true :=
        List.forall_iff_forall_mem.1 (by decide)
      intro d hd
      simp only [List.mem_cons, List.not_mem_nil, or_false] at hd
      rcases hd with rfl | rfl
      · exact ⟨rfl, rfl⟩
      · exact hl _ h
  | number hlength h =>
      intro d hd
      simp only [List.mem_cons] at hd
      rcases hd with rfl | rfl | hd
      · exact ⟨rfl, rfl⟩
      · exact ⟨rfl, rfl⟩
      · obtain ⟨v, hv⟩ := (exists_hexDigit? h).2 d hd
        have hbare : isBare d = true := by simp [isBare, isAlphanumeric_of_hexDigit? hv]
        exact ⟨isBreak_of_not_isSpace (isSpace_of_isBare hbare),
          isAllowed_of_shown (isShown_of_isBare hbare)⟩

/-- What may stand for a character may do so in double quotes. -/
theorem stands_of_interchange {c : Char} {written : List Char}
    (h : Interchange.Stands c written) : Stands c written := by
  have hline : ∀ d ∈ written, isBreak d = false := fun d hd => (line_of_stands h d hd).1
  cases h with
  | ordinary h =>
      simp only [isOrdinary, Bool.and_eq_true, Bool.not_eq_true', bne_iff_ne, ne_eq,
        decide_eq_true_eq] at h
      obtain ⟨⟨⟨⟨hcontrol, -⟩, hbreak⟩, hquote⟩, hslash⟩ := h
      by_cases hspace : c = ' '
      · exact .inl ⟨hspace, by rw [hspace]⟩
      · have htab : c ≠ '\t' := by
          rintro rfl
          exact absurd hcontrol (by decide)
        have hs : isSpace c = false := by simp [isSpace, Text.isBlank, hspace, htab, hbreak]
        refine .inr ⟨reads_raw (q := .double) hs hquote fun _ => hslash, ?_⟩
        rintro d ⟨⟩
        exact hs
  | @letter l c h =>
      have hl : ∀ p ∈ escapes, escapeLetter? p.1 = some p.2 :=
        List.forall_iff_forall_mem.1 (by decide)
      have hbreak : isBreak l = false := hline l (by simp)
      refine .inr ⟨reads_escape hbreak (escape_letter (hl _ h) hbreak), ?_⟩
      rintro d ⟨⟩
      rfl
  | number hlength h =>
      refine .inr ⟨reads_escape rfl (escape_number rfl (by rw [hlength]; rfl) h hline), ?_⟩
      rintro d ⟨⟩
      rfl

theorem line_of_spelled (h : Text.Spelled Interchange.Stands cs w) :
    ∀ d ∈ w, isBreak d = false ∧ isAllowed d = true := by
  induction h with
  | nil => simp
  | cons hc _ ih =>
      intro d hd
      rcases List.mem_append.1 hd with hd | hd
      · exact line_of_stands hc d hd
      · exact ih d hd

theorem line_of_quotation (h : Text.Spelled Interchange.Stands cs w) :
    ∀ d ∈ quotation w, isBreak d = false ∧ isAllowed d = true := by
  intro d hd
  simp only [quotation, List.mem_append, List.mem_cons, List.not_mem_nil, or_false] at hd
  rcases hd with (rfl | hd) | rfl
  · exact ⟨rfl, rfl⟩
  · exact line_of_spelled h d hd
  · exact ⟨rfl, rfl⟩

/-- **What stands between quotes is read.** -/
theorem quoted_quotation (h : Text.Spelled Interchange.Stands cs w) (rest : List Char) (m : Mark) :
    quoted .double ⟨quotation w ++ rest, m⟩ = .ok (cs, ⟨rest, m.after (quotation w)⟩) := by
  have hbetween : Between .double cs w :=
    between_of_spelled (h.mono fun _ _ => stands_of_interchange)
  have hread := quoted_between hbetween rest (fun hq => nomatch hq) m
  rw [quotation, List.append_assoc]
  exact hread

/-! ### Words -/

/-- A word of small letters and digits, or a number with its sign. -/
def Bare (w : List Char) : Prop :=
  ∃ sign ds, w = sign ++ ds ∧ (sign = [] ∨ sign = ['-']) ∧ ds ≠ [] ∧
    ∀ c ∈ ds, Text.isAlphanumeric c = true

theorem bare_toString (n : Int) : Bare (toString n).toList := by
  refine ⟨if n < 0 then ['-'] else [], Nat.toDigits 10 n.natAbs, Text.toList_toString n, ?_,
    Nat.toDigits_ne_nil, ?_⟩
  · split
    · exact .inr rfl
    · exact .inl rfl
  · intro c hc
    simp [Text.isAlphanumeric, Text.isDigit_of_mem_toDigits hc]

theorem bare_flagText (b : Bool) : Bare (Document.flagText b).toList := by
  cases b
  · exact ⟨[], _, rfl, .inl rfl, by decide, List.forall_iff_forall_mem.1 (by decide)⟩
  · exact ⟨[], _, rfl, .inl rfl, by decide, List.forall_iff_forall_mem.1 (by decide)⟩

theorem bare_null : Bare "null".toList :=
  ⟨[], _, rfl, .inl rfl, by decide, List.forall_iff_forall_mem.1 (by decide)⟩

theorem Bare.isBare (h : Bare w) : ∀ c ∈ w, isBare c = true := by
  obtain ⟨sign, ds, rfl, hsign, -, hds⟩ := h
  intro c hc
  rcases List.mem_append.1 hc with hc | hc
  · rcases hsign with rfl | rfl
    · exact nomatch hc
    · rw [List.mem_singleton.1 hc]
      rfl
  · simp [Yaml.isBare, hds c hc]

/-- What ends a plain scalar after blanks: within brackets a comma or what closes them, else the end
of the stream. -/
def Stops (flow : Bool) (rest : List Char) : Prop :=
  (flow = true → ∃ c cs, rest = c :: cs ∧ (c = ',' ∨ c = ']' ∨ c = '\x7d')) ∧
    (flow = false → rest = [])

theorem Stops.isSpace_head {flow : Bool} (h : Stops flow rest) :
    ∀ c ∈ rest.head?, isSpace c = false := by
  cases flow with
  | false =>
      rw [h.2 rfl]
      rintro c ⟨⟩
  | true =>
      obtain ⟨c, cs, rfl, rfl | rfl | rfl⟩ := h.1 rfl
      all_goals
        rintro d ⟨⟩
        rfl

/-- Where no word begins, none is read. -/
theorem plainWord_stops {flow : Bool} (h : Stops flow rest) (fuel : Nat) (m : Mark) :
    plainWord flow (fuel + 1) ⟨rest, m⟩ = .ok ([], ⟨rest, m⟩) := by
  cases flow with
  | false =>
      obtain rfl := h.2 rfl
      rfl
  | true =>
      obtain ⟨c, cs, rfl, rfl | rfl | rfl⟩ := h.1 rfl <;> rfl

/-- A word is read up to blanks or what ends the scalar. -/
theorem plainWord_bare {flow : Bool} (hw : ∀ c ∈ w, isBare c = true) (hws : Blanks ws)
    (hrest : Stops flow rest) (m : Mark) {fuel : Nat} (hfuel : w.length < fuel) :
    plainWord flow fuel ⟨w ++ (ws ++ rest), m⟩ = .ok (w, ⟨ws ++ rest, m.after w⟩) := by
  induction w generalizing m fuel with
  | nil =>
      obtain ⟨fuel, rfl⟩ : ∃ n, fuel = n + 1 := ⟨fuel - 1, by omega⟩
      cases ws with
      | nil => exact plainWord_stops hrest fuel m
      | cons c ws =>
          have hs : isSpace c = true := by
            rcases hws c (by simp) with rfl | rfl | rfl | rfl <;> rfl
          simp only [List.nil_append, List.cons_append, plainWord, Cursor.peek_cons, hs, if_true]
          rfl
  | cons c w ih =>
      rw [List.length_cons] at hfuel
      obtain ⟨fuel, rfl⟩ : ∃ n, fuel = n + 1 := ⟨fuel - 1, by omega⟩
      have hc := hw c (by simp)
      have hs := isSpace_of_isBare hc
      have hcolon : (c == ':') = false := by simpa using ne_of_isBare hc (d := ':') rfl
      have hnext : (⟨c :: (w ++ (ws ++ rest)), m⟩ : Cursor).next =
          ⟨w ++ (ws ++ rest), m.step c⟩ := Cursor.next_cons (isBreak_of_not_isSpace hs) _ m
      have hlt : w.length < fuel := by omega
      have hrec := ih (fun d hd => hw d (by simp [hd])) (m.step c) hlt
      simp only [List.cons_append, plainWord, Cursor.peek_cons, hs, hnext, hcolon, hrec,
        isFlowIndicator_of_isBare hc, Bool.and_false, Bool.false_and, Bool.false_eq_true, if_false]
      rfl

/-! ### Blanks -/

/-- A carriage return by itself ends a line. -/
theorem lineBreak?_return (h : ∀ c ∈ cs.head?, c ≠ '\n') (m : Mark) :
    (⟨'\r' :: cs, m⟩ : Cursor).lineBreak? = some ('\n', ⟨cs, m.index + 1, m.line + 1, 0⟩) := by
  unfold Cursor.lineBreak?
  split
  · rename_i heq
    obtain ⟨-, rfl⟩ := List.cons.inj heq
    exact absurd rfl (h '\n' rfl)
  · rename_i heq
    obtain ⟨rfl, rfl⟩ := List.cons.inj heq
    rfl
  · rename_i heq
    exact nomatch heq

/-- A line break among blanks, which may be of two characters. -/
theorem lineBreak?_blanks {c : Char} (ws : List Char) (hc : c = '\n' ∨ c = '\r')
    (hrest : ∀ c ∈ rest.head?, isSpace c = false) (m : Mark) :
    ∃ ch ws' m', ws' <:+ ws ∧
      (⟨c :: (ws ++ rest), m⟩ : Cursor).lineBreak? = some (ch, ⟨ws' ++ rest, m'⟩) := by
  rcases hc with rfl | rfl
  · exact ⟨'\n', ws, _, List.suffix_rfl, rfl⟩
  · by_cases hfeed : ∃ ws', ws = '\n' :: ws'
    · obtain ⟨ws', rfl⟩ := hfeed
      exact ⟨'\n', ws', _, List.suffix_cons _ _, rfl⟩
    · refine ⟨'\n', ws, _, List.suffix_rfl, lineBreak?_return ?_ m⟩
      rintro d hd rfl
      cases ws with
      | nil => exact nomatch hrest '\n' hd
      | cons e ws =>
          obtain rfl : e = '\n' := by simpa using hd
          exact hfeed ⟨ws, rfl⟩

/-- Blanks between words are read up to what comes after them. -/
theorem Gap.scan_blanks (hws : Blanks ws) (hrest : ∀ c ∈ rest.head?, isSpace c = false) (g : Gap)
    (m : Mark) {fuel : Nat} (hfuel : ws.length < fuel) :
    ∃ g' m', Gap.scan 0 fuel g ⟨ws ++ rest, m⟩ = .ok (g', ⟨rest, m'⟩) := by
  induction hn : ws.length using Nat.strong_induction_on generalizing ws g m fuel with
  | _ n ih =>
      subst hn
      obtain ⟨fuel, rfl⟩ : ∃ n, fuel = n + 1 := ⟨fuel - 1, by omega⟩
      cases ws with
      | nil => exact ⟨g, m, Gap.scan_append 0 (by simp) hrest g m (by simp)⟩
      | cons c ws =>
          rw [List.length_cons] at hfuel
          have hblanks : Blanks ws := fun d hd => hws d (by simp [hd])
          have hcase : Text.isBlank c = true ∧ isBreak c = false ∨ c = '\n' ∨ c = '\r' := by
            rcases hws c (by simp) with rfl | rfl | rfl | rfl
            · exact .inl ⟨rfl, rfl⟩
            · exact .inl ⟨rfl, rfl⟩
            · exact .inr (.inl rfl)
            · exact .inr (.inr rfl)
          rw [List.cons_append, Gap.scan]
          rcases hcase with ⟨hblank, hline⟩ | hbreak
          · have hnone : (⟨c :: (ws ++ rest), m⟩ : Cursor).lineBreak? = Option.none :=
              Cursor.lineBreak?_of_not_break (by rintro d ⟨⟩; exact hline) m
            have hnext : (⟨c :: (ws ++ rest), m⟩ : Cursor).next = ⟨ws ++ rest, m.step c⟩ :=
              Cursor.next_cons hline _ m
            have hcolumn : ¬ (m.column : Int) < 0 := by omega
            have hlt : ws.length < fuel := by omega
            obtain ⟨g', m', hscan⟩ := ih ws.length (by simp) hblanks (g.blank c) (m.step c) hlt rfl
            refine ⟨g', m', ?_⟩
            simp only [hnone, Cursor.peek_cons, hblank, Bool.not_true, Bool.false_eq_true, if_false,
              hcolumn, decide_false, Bool.and_false, hnext, hscan]
          · obtain ⟨ch, ws', m', hsuffix, hread⟩ := lineBreak?_blanks ws hbreak hrest m
            have hlength := hsuffix.length_le
            have hlt : ws'.length < fuel := by omega
            obtain ⟨g', m'', hscan⟩ := ih ws'.length (by rw [List.length_cons]; omega)
              (fun d hd => hblanks d (hsuffix.subset hd)) (g.lineBreak ch) m' hlt rfl
            refine ⟨g', m'', ?_⟩
            simp only [hread, hscan]

/-! ### Plain scalars -/

theorem not_atDocumentMark_of_stops {flow : Bool} (h : Stops flow rest) (m : Mark) :
    (⟨rest, m⟩ : Cursor).atDocumentMark = false ∧ (⟨rest, m⟩ : Cursor).sees '#' = false ∧
      (⟨rest, m⟩ : Cursor).at_ isSpace = false := by
  cases flow with
  | false =>
      rw [h.2 rfl]
      exact ⟨by simp [Cursor.atDocumentMark, Cursor.isRule], rfl, rfl⟩
  | true =>
      obtain ⟨c, cs, rfl, rfl | rfl | rfl⟩ := h.1 rfl
      all_goals
        exact ⟨by simp [Cursor.atDocumentMark, Cursor.isRule], rfl, rfl⟩

/-- Such a word begins with a letter or a digit, or with a sign before one. -/
theorem Bare.begins (h : Bare w) :
    ∃ c cs, Text.isAlphanumeric c = true ∧ (w = c :: cs ∨ w = '-' :: c :: cs) := by
  obtain ⟨sign, ds, rfl, hsign, hne, hds⟩ := h
  obtain ⟨c, cs, rfl⟩ := List.exists_cons_of_ne_nil hne
  refine ⟨c, cs, hds c (by simp), ?_⟩
  rcases hsign with rfl | rfl
  · exact .inl rfl
  · exact .inr rfl

theorem ne_of_isAlphanumeric {c d : Char} (hc : Text.isAlphanumeric c = true)
    (hd : Text.isAlphanumeric d = false) : c ≠ d := by
  rintro rfl
  rw [hc] at hd
  exact nomatch hd

/-- It begins no mark between documents and no comment. -/
theorem Bare.not_atDocumentMark (h : Bare w) (rest : List Char) (m : Mark) :
    (⟨w ++ rest, m⟩ : Cursor).atDocumentMark = false ∧
      (⟨w ++ rest, m⟩ : Cursor).sees '#' = false := by
  obtain ⟨c, cs, hc, rfl | rfl⟩ := h.begins
  all_goals
    have hdash : c ≠ '-' := ne_of_isAlphanumeric hc rfl
    have hdot : c ≠ '.' := ne_of_isAlphanumeric hc rfl
    have hhash : c ≠ '#' := ne_of_isAlphanumeric hc rfl
    refine ⟨?_, ?_⟩
    · simp [Cursor.atDocumentMark, Cursor.isRule, hdash, hdot]
    · simp [Cursor.sees, hhash]

/-- **A scalar without quotes is read**, with the blanks after it. -/
theorem plain_bare {flow : Bool} (hw : Bare w) (hws : Blanks ws) (hrest : Stops flow rest)
    (m : Mark) :
    ∃ stop broken m', plain flow 0 ⟨w ++ (ws ++ rest), m⟩ =
      .ok (⟨w, stop, broken⟩, ⟨rest, m'⟩) := by
  have hempty : w.isEmpty = false := by
    obtain ⟨c, cs, -, rfl | rfl⟩ := hw.begins <;> rfl
  have hlength : 0 < (w ++ (ws ++ rest)).length := by
    obtain ⟨c, cs, -, rfl | rfl⟩ := hw.begins <;> simp
  obtain ⟨hmark, hhash⟩ := hw.not_atDocumentMark (ws ++ rest) m
  have hword : plainWord flow ((w ++ (ws ++ rest)).length + 1) ⟨w ++ (ws ++ rest), m⟩ =
      .ok (w, ⟨ws ++ rest, m.after w⟩) :=
    plainWord_bare hw.isBare hws hrest m (by rw [List.length_append]; omega)
  cases ws with
  | nil =>
      obtain ⟨-, -, hspace⟩ := not_atDocumentMark_of_stops hrest (m.after w)
      refine ⟨m.after w, false, m.after w, ?_⟩
      rw [List.nil_append] at hmark hhash hword ⊢
      simp only [plain, plainWords, hmark, hhash, hword, hempty, hspace]
      rfl
  | cons c ws =>
      have hspace : (⟨c :: ws ++ rest, m.after w⟩ : Cursor).at_ isSpace = true := by
        rcases hws c (by simp) with rfl | rfl | rfl | rfl <;> rfl
      have hlt : (c :: ws).length < (c :: ws ++ rest).length + 1 := by
        rw [List.length_append]
        omega
      obtain ⟨g, m', hscan⟩ := Gap.scan_blanks hws hrest.isSpace_head .none (m.after w) hlt
      obtain ⟨hmark', hhash', hspace'⟩ := not_atDocumentMark_of_stops hrest m'
      obtain ⟨fuel, hfuel⟩ : ∃ n, (w ++ (c :: ws ++ rest)).length = n + 1 :=
        ⟨(w ++ (c :: ws ++ rest)).length - 1, by omega⟩
      have hcolumn : ¬ (m'.column : Int) < 0 := by omega
      -- where no word follows, the scalar ends
      have hend : plainWords flow 0 (w ++ (c :: ws ++ rest)).length g (m.after w) ⟨rest, m'⟩ =
          .ok (⟨[], m.after w, g.broken⟩, ⟨rest, m'⟩) := by
        rw [hfuel]
        simp [plainWords, hmark', hhash', plainWord_stops hrest, hspace']
      refine ⟨m.after w, g.broken, m', ?_⟩
      simp only [plain, plainWords, hmark, hhash, hword, hempty, hspace, hscan, hcolumn, hend,
        Bool.or_self, Bool.not_true, decide_false, Bool.and_false, Bool.false_eq_true, if_false]
      simp [Gap.text, Gap.none]

end Yaml

end SecretResolver
