/-
**A scalar is one token.**

In whichever form a text is written, the lexer makes one token of it that holds the text, and it is
then before what comes after the scalar: before the colon if the scalar is a key that stands on one
line with its value, else at the start of the next line.

Main definitions:

* `styleOf` — whether a text is marked as one;
* `Lexer.Scanned` — what the lexer makes of a scalar on lines of its own.

Main results:

* `writeScalar_starts` — a scalar begins with a token;
* `Lexer.scanned_writeLines` — **a scalar on lines of its own is one token**;
* `Lexer.fetchReady_key` — **so is a key** before its colon.
-/

import SecretResolver.Proofs.Yaml.Within

set_option relaxedAutoImplicit false
set_option autoImplicit false

namespace SecretResolver

namespace Yaml

variable {m m' : Mark} {cs rest : List Char} {s : String}

/-- Whether a text is marked as one. -/
def styleOf (s : String) : ScalarStyle := if formOf s = .plain then .plain else .marked

/-- A text within quotes is read back. -/
theorem quoted_writeScalar (h : formOf s = .single ∨ formOf s = .double) :
    ∃ q written, writeScalar s = Quote.char q :: written ∧ ∀ rest m, rest.head? ≠ some '\x27' →
      quoted q ⟨q.char :: written ++ rest, m⟩ =
        .ok (s.toList, ⟨rest, m.after (q.char :: written)⟩) := by
  rcases h with h | h
  · refine ⟨.single, singleBody s.toList ++ ['\x27'], ?_, ?_⟩
    · rw [writeScalar, h, writeAs, writeSingle_eq]
      rfl
    · intro rest m hrest
      have hread := quoted_writeSingle (formOf_single h) hrest m
      rwa [writeSingle_eq] at hread
  · refine ⟨.double, s.toList.flatMap Quote.double.spell ++ ['"'], ?_, ?_⟩
    · rw [writeScalar, h]
      rfl
    · exact fun rest m _ => quoted_writeDouble s.toList rest m

/-! ### First characters -/

/-- A scalar begins with a token. -/
theorem writeScalar_starts (s : String) (rest : List Char) : Starts (writeScalar s ++ rest) := by
  have hquoted : formOf s = .single ∨ formOf s = .double → Starts (writeScalar s ++ rest) := by
    intro h
    obtain ⟨q, written, hwritten, -⟩ := quoted_writeScalar h
    rw [hwritten]
    rintro c ⟨⟩
    cases q <;> decide
  cases h : formOf s with
  | plain =>
      obtain ⟨c, hc, hspace, hhash⟩ := (formOf_plain h).2.run.begins
      have hshown := (formOf_plain h).2.shown c (List.mem_of_mem_head? hc)
      rw [writeScalar, h, writeAs]
      cases hcs : s.toList with
      | nil =>
          rw [hcs] at hc
          exact nomatch hc
      | cons d ds =>
          rw [hcs] at hc
          obtain rfl : d = c := by simpa using hc
          rintro e ⟨⟩
          exact ⟨hshown, hspace, hhash⟩
  | single => exact hquoted (.inl h)
  | double => exact hquoted (.inr h)
  | literal =>
      rw [writeScalar, h]
      rintro c ⟨⟩
      decide

theorem PlainText.not_atDocumentMark {x : Char} (h : PlainText cs) (hdash : x ≠ '-') (hdot : x ≠ '.')
    (m : Mark) : (⟨cs ++ x :: rest, m⟩ : Cursor).atDocumentMark = false := by
  obtain ⟨c, ds, rfl, -, -, hrule⟩ := h.begins
  have hnot : ∀ ch, ch = '-' ∨ ch = '.' → (⟨c :: ds ++ x :: rest, m⟩ : Cursor).isRule ch = false := by
    intro ch hch
    have hx : x ≠ ch := by
      rintro rfl
      rcases hch with h | h
      · exact hdash h
      · exact hdot h
    simp only [Cursor.isRule, Bool.and_eq_false_iff, beq_eq_false_iff_ne, ne_eq]
    refine .inl (.inr ?_)
    intro htake
    have hc : c = ch := by simpa using congrArg List.head? htake
    subst hc
    have hno := hrule hch
    cases ds with
    | nil => exact hx (by simpa using htake : x = c ∧ _).1
    | cons d ds =>
        cases ds with
        | nil => exact hx (by simpa using htake : d = c ∧ x = c).2
        | cons e ds => exact hno (by simpa using htake)
  rw [Cursor.atDocumentMark, hnot '-' (.inl rfl), hnot '.' (.inr rfl)]
  rfl

namespace Lexer

variable {v : Level} {held : List Token} {allowed : Bool} {p : Option PendingKey}

/-- A plain scalar is seen from its first character and the one after it. -/
theorem fetchAt_plain {ch : Char} (hspace : isSpace ch = false)
    (hforbids : forbidsFirst ch (separatorAhead cs) = false) :
    (within v ⟨ch :: (cs ++ rest), m⟩ held allowed p).fetchAt ch =
      (within v ⟨ch :: (cs ++ rest), m⟩ held allowed p).fetchPlain := by
  simp only [forbidsFirst, Bool.or_eq_false_iff, Bool.and_eq_false_iff, decide_eq_false_iff_not,
    beq_eq_false_iff_ne] at hforbids
  obtain ⟨⟨⟨hlist, hquestion⟩, hcolon⟩, hdash⟩ := hforbids
  have hfollowed : ch = '-' ∨ ch = '?' ∨ ch = ':' →
      (⟨ch :: (cs ++ rest), m⟩ : Cursor).next.atSpaceOrEnd = false := by
    intro hch
    have hahead : separatorAhead cs = false := by
      rcases hch with h | h | h
      · exact hdash.resolve_left (absurd h)
      · exact hquestion.resolve_left (absurd h)
      · exact hcolon.resolve_left (absurd h)
    cases cs with
    | nil => exact absurd hahead.symm Bool.false_ne_true
    | cons d cs => exact hahead
  have hcursor : (within v ⟨ch :: (cs ++ rest), m⟩ held allowed p).cursor =
      ⟨ch :: (cs ++ rest), m⟩ := rfl
  have hflow : (within v ⟨ch :: (cs ++ rest), m⟩ held allowed p).inFlow = false := rfl
  simp only [fetchAt, hcursor, hflow, Bool.false_or]
  generalize (⟨ch :: (cs ++ rest), m⟩ : Cursor).next = after at hfollowed ⊢
  by_cases hch : ch = '-' ∨ ch = '?' ∨ ch = ':'
  · have hafter := hfollowed hch
    have hblank : after.at_ Text.isBlank = false := by
      rw [Cursor.at_]
      rw [Cursor.atSpaceOrEnd] at hafter
      cases hpeek : after.peek with
      | none => rfl
      | some d =>
          rw [hpeek, Option.all_some, isSpace, Bool.or_eq_false_iff] at hafter
          exact hafter.1
    rcases hch with rfl | rfl | rfl
    all_goals
      simp [beginsPlain, hafter, hblank]
  · simp only [not_or] at hch
    simp at hlist
    have hindicator : isIndicator ch = false := by simp [isIndicator, hlist, hch]
    simp [beginsPlain, hindicator, hspace, hlist, hch]

theorem fetchAt_quote (q : Quote) (rest : List Char) :
    (within v ⟨q.char :: rest, m⟩ held allowed p).fetchAt q.char =
      (within v ⟨q.char :: rest, m⟩ held allowed p).fetchQuoted q := by
  cases q <;> rfl

theorem fetchAt_bar (rest : List Char) :
    (within v ⟨'|' :: rest, m⟩ held allowed p).fetchAt '|' =
      (within v ⟨'|' :: rest, m⟩ held allowed p).fetchBlock true := rfl

/-! ### Tokens -/

theorem fetchPlain_within {c c' : Cursor} {r : Plain}
    (h : plain false (v.indent + 1) c = .ok (r, c')) :
    (within v c held allowed none).fetchPlain =
      .ok (within v c' (held ++ [⟨.scalar r.text .plain, c.mark, r.stop⟩]) r.broken
        (keyAt v c.mark held allowed)) := by
  have hplain : plain (within v c held allowed (keyAt v c.mark held allowed)).inFlow
      ((within v c held allowed (keyAt v c.mark held allowed)).indent + 1)
      (within v c held allowed (keyAt v c.mark held allowed)).cursor = .ok (r, c') := h
  simp only [fetchPlain, saveKey_within, hplain]
  rfl

theorem fetchQuoted_within {q : Quote} {c c' : Cursor} {text : List Char}
    (h : quoted q c = .ok (text, c')) :
    (within v c held allowed none).fetchQuoted q =
      .ok (within v c' (held ++ [⟨.scalar text .marked, c.mark, c'.mark⟩]) false
        (keyAt v c.mark held allowed)) := by
  have hquoted : quoted q (within v c held allowed (keyAt v c.mark held allowed)).cursor =
      .ok (text, c') := h
  simp only [fetchQuoted, fetchNode, saveKey_within, hquoted, upTo]
  rfl

theorem fetchBlock_within {c c' : Cursor} {text : List Char} {stop : Mark}
    (h : block true v.indent c = .ok ((text, stop), c')) :
    (within v c held allowed none).fetchBlock true =
      .ok (within v c' (held ++ [⟨.scalar text .marked, c.mark, stop⟩]) true none) := by
  have hdrop : (within v c held allowed none).dropKey = .ok (within v c held allowed none) := rfl
  have hblock : block true (within v c held allowed none).indent
      (within v c held allowed none).cursor = .ok ((text, stop), c') := h
  simp only [fetchBlock, hdrop, hblock]
  rfl

/-- A text within quotes is one token, whatever stands after it. -/
theorem fetchReady_quoted {q : Quote} {text written : List Char}
    (hread : quoted q ⟨q.char :: written ++ rest, m⟩ =
      .ok (text, ⟨rest, m.after (q.char :: written)⟩)) (hv : v.indent ≤ m.column)
    (held : List Token) (allowed : Bool) :
    ∃ t : Token, t.kind = .scalar text .marked ∧
      (within v ⟨q.char :: written ++ rest, m⟩ held allowed none).fetchReady =
        .ok (within v ⟨rest, m.after (q.char :: written)⟩ (held ++ [t]) false
          (keyAt v m held allowed)) := by
  have hpercent : m.column = 0 → q.char ≠ '%' := by
    intro _
    cases q <;> decide
  have hdoc : (⟨q.char :: (written ++ rest), m⟩ : Cursor).atDocumentMark = false := by
    cases q <;> simp [Cursor.atDocumentMark, Cursor.isRule, Quote.char]
  refine ⟨⟨.scalar text .marked, m, m.after (q.char :: written)⟩, rfl, ?_⟩
  exact (fetchReady_within hv hpercent hdoc).trans
    ((fetchAt_quote q (written ++ rest)).trans (fetchQuoted_within hread))

/-- A plain scalar is one token. -/
theorem fetchReady_plain {c c' : Cursor} {x : Char} {r : Plain} (h : PlainText cs)
    (hc : c = ⟨cs ++ x :: rest, m⟩) (hx : x ≠ '-' ∧ x ≠ '.')
    (hread : plain false (v.indent + 1) c = .ok (r, c')) (hv : v.indent ≤ m.column)
    (held : List Token) (allowed : Bool) :
    ∃ t : Token, t.kind = .scalar r.text .plain ∧
      (within v c held allowed none).fetchReady =
        .ok (within v c' (held ++ [t]) r.broken (keyAt v m held allowed)) := by
  subst hc
  have hdoc : (⟨cs ++ x :: rest, m⟩ : Cursor).atDocumentMark = false :=
    h.not_atDocumentMark hx.1 hx.2 m
  obtain ⟨ch, hch, hspace, -⟩ := h.run.begins
  obtain ⟨d, ds, rfl, -, hforbids, -⟩ := h.begins
  obtain rfl : d = ch := by simpa using hch
  have hpercent : m.column = 0 → d ≠ '%' := by
    rintro - rfl
    revert hforbids
    cases separatorAhead ds <;> decide
  refine ⟨⟨.scalar r.text .plain, m, r.stop⟩, rfl, ?_⟩
  exact (fetchReady_within hv hpercent hdoc).trans
    ((fetchAt_plain hspace hforbids).trans (fetchPlain_within hread))

/-! ### Places of a scalar -/

/-- After a line has ended, a key that may have begun on it is given up. -/
theorem ready_after_line {held' : List Token} (hv : v.indent < m.column) (hrest : Starts rest)
    (hline : m.line < m'.line) (allowed' : Bool) :
    (within v ⟨rest, m'⟩ held' allowed' (keyAt v m held allowed)).ready =
      .ok (within v ⟨rest, m'⟩ held' allowed' none) := by
  rw [ready_starts hrest (overdue_keyAt hv), fresh?_keyAt hline]

/-- The lexer makes one token of a text and is then at the start of a line. -/
def Scanned (v : Level) (held : List Token) (s : String) (rest : List Char)
    (x : Except Mark Lexer) : Prop :=
  ∃ l t m', x = .ok l ∧ t.kind = .scalar s.toList (styleOf s) ∧
    l.ready = .ok (within v ⟨rest, m'⟩ (held ++ [t]) true none) ∧ m'.column = 0

theorem scanned_quoted (h : formOf s = .single ∨ formOf s = .double) (hv : v.indent < m.column)
    (hrest : Starts rest) :
    Scanned v held s rest (within v ⟨writeLines s ++ rest, m⟩ held allowed none).fetchReady := by
  obtain ⟨q, written, hwritten, hread⟩ := quoted_writeScalar h
  have hlines : writeLines s ++ rest = q.char :: written ++ '\n' :: rest := by
    rcases h with h | h <;> simp [writeLines, hwritten, lineFeedAfter, h]
  have hstyle : styleOf s = .marked := by
    rcases h with h | h <;> simp [styleOf, h]
  obtain ⟨t, ht, hfetch⟩ := fetchReady_quoted (hread ('\n' :: rest) m (by simp)) (Int.le_of_lt hv)
    held allowed
  have hbefore := m.before_after (q.char :: written)
  have hline : m.line < ((m.after (q.char :: written)).step '\n').line :=
    Nat.lt_succ_of_le hbefore.1
  rw [hlines]
  refine ⟨_, t, (m.after (q.char :: written)).step '\n', hfetch, by rw [hstyle, ht], ?_, rfl⟩
  rw [ready_feed hrest (overdue_keyAt hv), fresh?_keyAt hline]

/-- A plain scalar on its line is one token, and the lexer is then at the start of a line. -/
theorem scanned_plainText (hplain : PlainText cs) (hv : v.indent < m.column) (hrest : Starts rest)
    (hstream : v = .stream → rest = []) :
    ∃ l t m', (within v ⟨cs ++ '\n' :: rest, m⟩ held allowed none).fetchReady = .ok l ∧
      t.kind = .scalar cs .plain ∧
      l.ready = .ok (within v ⟨rest, m'⟩ (held ++ [t]) true none) ∧ m'.column = 0 := by
  have hnext : 0 < v.indent + 1 ∨ rest = [] := by
    cases v with
    | stream => exact .inr (hstream rfl)
    | mapping => exact .inl (by decide)
  have hread : plain false (v.indent + 1) ⟨cs ++ '\n' :: rest, m⟩ =
      .ok (⟨cs, m.after cs, true⟩, ⟨rest, m.after (cs ++ ['\n'])⟩) :=
    plain_line hplain (hplain.not_atDocumentMark (by decide) (by decide) m) (by omega)
      (fun c hc => (hrest c hc).2.1) hnext
  obtain ⟨t, ht, hfetch⟩ := fetchReady_plain hplain rfl ⟨by decide, by decide⟩ hread
    (Int.le_of_lt hv) held allowed
  have hbefore := m.before_after cs
  have hline : m.line < (m.after (cs ++ ['\n'])).line := by
    rw [Mark.after_append]
    exact Nat.lt_succ_of_le hbefore.1
  exact ⟨_, t, m.after (cs ++ ['\n']), hfetch, ht, ready_after_line hv hrest hline true,
    Mark.column_after_break rfl m cs⟩

theorem scanned_plain (h : formOf s = .plain) (hv : v.indent < m.column) (hrest : Starts rest)
    (hstream : v = .stream → rest = []) :
    Scanned v held s rest (within v ⟨writeLines s ++ rest, m⟩ held allowed none).fetchReady := by
  have hlines : writeLines s ++ rest = s.toList ++ '\n' :: rest := by
    simp [writeLines, writeScalar, writeAs, lineFeedAfter, h]
  have hstyle : styleOf s = .plain := by simp [styleOf, h]
  rw [Scanned, hlines, hstyle]
  exact scanned_plainText (formOf_plain h).2 hv hrest hstream

theorem scanned_literal (h : formOf s = .literal) (hv : v.indent < m.column)
    (hrest : Starts rest) :
    Scanned v held s rest (within v ⟨writeLines s ++ rest, m⟩ held allowed none).fetchReady := by
  obtain ⟨stop, hread⟩ := block_writeLiteral v.indent_cases (formOf_literal h)
    (fun c hc => ⟨(hrest c hc).1, (hrest c hc).2.1⟩) m
  have hcolumn := column_after_writeLiteral s.toList m
  have hlines : writeLines s = writeLiteral s.toList ++
      (if endsLine s.toList then [] else ['\n']) := by
    simp [writeLines, writeScalar, writeAs, lineFeedAfter, h]
  have hstyle : styleOf s = .marked := by simp [styleOf, h]
  rw [← hlines] at hread hcolumn
  obtain ⟨written, hbar⟩ : ∃ written, writeLines s = '|' :: written := by
    rw [hlines]
    exact ⟨_, rfl⟩
  have hdoc : (⟨'|' :: (written ++ rest), m⟩ : Cursor).atDocumentMark = false := by
    simp [Cursor.atDocumentMark, Cursor.isRule]
  have hfetch : (within v ⟨writeLines s ++ rest, m⟩ held allowed none).fetchReady =
      .ok (within v ⟨rest, m.after (writeLines s)⟩
        (held ++ [⟨.scalar s.toList .marked, m, stop⟩]) true none) := by
    rw [hbar] at hread ⊢
    exact (fetchReady_within (Int.le_of_lt hv) (fun _ => by decide) hdoc).trans
      ((fetchAt_bar _).trans (fetchBlock_within hread))
  exact ⟨_, ⟨.scalar s.toList .marked, m, stop⟩, m.after (writeLines s), hfetch, by rw [hstyle],
    ready_starts hrest rfl, hcolumn⟩

/-- **A scalar on lines of its own is one token**, and a line begins after it. -/
theorem scanned_writeLines (s : String) (hv : v.indent < m.column) (hrest : Starts rest)
    (hstream : v = .stream → rest = []) :
    Scanned v held s rest (within v ⟨writeLines s ++ rest, m⟩ held allowed none).fetchReady := by
  cases h : formOf s with
  | plain => exact scanned_plain h hv hrest hstream
  | single => exact scanned_quoted (.inl h) hv hrest
  | double => exact scanned_quoted (.inr h) hv hrest
  | literal => exact scanned_literal h hv hrest

/-! ### Keys -/

/-- A key that stands on a line with its value has no line break in it. -/
theorem isSimpleKey_line (h : isSimpleKey s = true) :
    (∀ c ∈ s.toList, isBreak c = false) ∧ s.utf8ByteSize ≤ simpleKeyBytes := by
  rw [isSimpleKey, Bool.and_eq_true, Bool.not_eq_true', decide_eq_true_eq] at h
  refine ⟨?_, h.2⟩
  have hmultiline := h.1
  cases hcs : s.toList with
  | nil => simp
  | cons c cs =>
      rw [hcs] at hmultiline
      simp only [Traits.of, survey, surveyFrom_breaks] at hmultiline
      have hany : (c :: cs).any isBreak = false := hmultiline
      simpa using hany

theorem formOf_of_isSimpleKey (h : isSimpleKey s = true) : formOf s ≠ .literal := by
  intro hform
  have hfeed := (formOf_literal hform).lineFeed
  exact nomatch (isSimpleKey_line h).1 '\n' hfeed

/-- **A key is one token** before its colon, and waits for it. -/
theorem fetchReady_key (h : isSimpleKey s = true) (hv : v.indent ≤ m.column) (held : List Token)
    (rest : List Char) :
    ∃ t, t.kind = .scalar s.toList (styleOf s) ∧
      (within v ⟨writeScalar s ++ ':' :: ' ' :: rest, m⟩ held true none).fetchReady =
        .ok (within v ⟨':' :: ' ' :: rest, m.after (writeScalar s)⟩ (held ++ [t]) false
          (keyAt v m held true)) := by
  have hquoted : formOf s = .single ∨ formOf s = .double →
      ∃ t, t.kind = .scalar s.toList (styleOf s) ∧
        (within v ⟨writeScalar s ++ ':' :: ' ' :: rest, m⟩ held true none).fetchReady =
          .ok (within v ⟨':' :: ' ' :: rest, m.after (writeScalar s)⟩ (held ++ [t]) false
            (keyAt v m held true)) := by
    intro h
    obtain ⟨q, written, hwritten, hread⟩ := quoted_writeScalar h
    have hstyle : styleOf s = .marked := by
      rcases h with h | h <;> simp [styleOf, h]
    rw [hwritten, hstyle]
    exact fetchReady_quoted (hread (':' :: ' ' :: rest) m (by simp)) hv held true
  cases hform : formOf s with
  | literal => exact absurd hform (formOf_of_isSimpleKey h)
  | single => exact hquoted (.inl hform)
  | double => exact hquoted (.inr hform)
  | plain =>
      have hplain := (formOf_plain hform).2
      have hread : plain false (v.indent + 1) ⟨s.toList ++ ':' :: ' ' :: rest, m⟩ =
          .ok (⟨s.toList, m.after s.toList, false⟩, ⟨':' :: ' ' :: rest, m.after s.toList⟩) :=
        plain_key hplain (hplain.not_atDocumentMark (by decide) (by decide) m) (by omega)
      have hwritten : writeScalar s = s.toList := by simp [writeScalar, writeAs, hform]
      have hstyle : styleOf s = .plain := by simp [styleOf, hform]
      rw [hwritten, hstyle]
      exact fetchReady_plain hplain rfl ⟨by decide, by decide⟩ hread hv held true

end Lexer

end Yaml

end SecretResolver
