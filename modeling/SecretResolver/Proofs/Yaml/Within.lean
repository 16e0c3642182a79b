/-
**The lexer between the tokens of a written stream.**

What is written has at most one level: there are the places outside of all blocks and those within
one mapping that stands at the start of its lines.  The states of the lexer at such places are given
a form of their own, and for each thing that may stand between two tokens it is said what the lexer
makes of it before it looks at the next token.

Main definitions:

* `Level`, `Lexer.within` — the states of the lexer in what is written;
* `Lexer.ready`, `Lexer.fetchReady` — the two halves of `Lexer.fetch`;
* `Starts` — what begins with a token.

Main results:

* `Lexer.ready_starts`, `Lexer.ready_space`, `Lexer.ready_feed` — up to the next token;
* `Lexer.fetchReady_within` — the next token is decided by its first character.
-/

import SecretResolver.Proofs.Yaml.Literal
import SecretResolver.Proofs.Yaml.PlainScalar

set_option relaxedAutoImplicit false
set_option autoImplicit false

namespace SecretResolver

namespace Yaml

variable {m m' : Mark} {cs rest : List Char}

/-- How deep a place lies. -/
inductive Level where
  | stream
  /-- Within the mapping that stands at the start of its lines. -/
  | mapping
  deriving Repr, DecidableEq

/-- The column of the innermost block. -/
def Level.indent : Level → Int
  | .stream => -1
  | .mapping => 0

/-- The columns of the blocks around. -/
def Level.indents : Level → List Int
  | .stream => []
  | .mapping => [-1]

theorem Level.indent_cases (v : Level) : v.indent = -1 ∨ v.indent = 0 := by
  cases v with
  | stream => exact .inl rfl
  | mapping => exact .inr rfl

theorem Level.indent_le (v : Level) (n : Nat) : v.indent ≤ n := by
  rcases v.indent_cases with h | h <;> omega

/-- What begins with a token. -/
def Starts (cs : List Char) : Prop :=
  ∀ c ∈ cs.head?, isShown c = true ∧ isSpace c = false ∧ c ≠ '#'

theorem starts_nil : Starts [] := by
  rintro c ⟨⟩

/-- A token begins with nothing that is passed over. -/
theorem Starts.not_passed (h : Starts rest) (tabs : Bool) :
    ∀ c ∈ rest.head?, (c == ' ' || (tabs && c == '\t')) = false := by
  intro c hc
  have hs := (h c hc).2.1
  simp only [isSpace, Text.isBlank, Bool.or_eq_false_iff] at hs
  simp [hs]

/-- Nor with a comment. -/
theorem Starts.sees_number_sign (h : Starts rest) (m : Mark) :
    (⟨rest, m⟩ : Cursor).sees '#' = false := by
  cases rest with
  | nil => rfl
  | cons c rest => simpa [Cursor.sees] using (h c rfl).2.2

/-- Nor with a line break. -/
theorem Starts.lineBreak? (h : Starts rest) (m : Mark) :
    (⟨rest, m⟩ : Cursor).lineBreak? = none :=
  Cursor.lineBreak?_of_not_break (fun c hc => isBreak_of_not_isSpace (h c hc).2.1) m

namespace Cursor

theorem skipWhile_of_head {p : Char → Bool} (h : ∀ c ∈ cs.head?, p c = false) (m : Mark) :
    (⟨cs, m⟩ : Cursor).skipWhile p = ⟨cs, m⟩ := by
  cases cs with
  | nil => rfl
  | cons c cs =>
      have hc := h c rfl
      simp [skipWhile, takeWhile, hc]

theorem skipWhile_step {p : Char → Bool} {c : Char} (hc : p c = true) (hline : isBreak c = false)
    (cs : List Char) (m : Mark) :
    (⟨c :: cs, m⟩ : Cursor).skipWhile p = (⟨cs, m.step c⟩ : Cursor).skipWhile p := by
  simp only [skipWhile, takeWhile, Mark.step_of_line hline, List.takeWhile_cons, List.dropWhile_cons,
    hc, if_true, List.length_cons, Cursor.mk.injEq, Mark.mk.injEq, true_and]
  omega

theorem skipWhile_cons {p : Char → Bool} {c : Char} (hc : p c = true)
    (h : ∀ d ∈ cs.head?, p d = false) (hline : isBreak c = false) (m : Mark) :
    (⟨c :: cs, m⟩ : Cursor).skipWhile p = ⟨cs, m.step c⟩ := by
  rw [skipWhile_step hc hline, skipWhile_of_head h]

end Cursor

namespace Lexer

variable {v : Level} {c : Cursor} {held : List Token} {allowed : Bool} {p : Option PendingKey}

/-- A state of the lexer in what is written. -/
def within (v : Level) (c : Cursor) (held : List Token) (allowed : Bool) (p : Option PendingKey) :
    Lexer :=
  ⟨c, held, 0, v.indent, v.indents, allowed, p, []⟩

/-- The lexer when it looks at the next token. -/
def ready (l : Lexer) : Except Mark Lexer := (skipSpace (l.cursor.rest.length + 1) l).dropStale

/-- Adds the next token, which stands here. -/
def fetchReady (l : Lexer) : Except Mark Lexer :=
  let l := l.unindent l.mark.column
  match l.cursor.peek with
  | none => l.fetchEnd
  | some ch =>
      if l.mark.column == 0 && ch == '%' then l.fetchDirective
      else if l.cursor.isRule '-' then l.fetchDocumentMark .documentStart
      else if l.cursor.isRule '.' then l.fetchDocumentMark .documentEnd
      else l.fetchAt ch

theorem fetch_of_ready {l l' : Lexer} (h : l.ready = .ok l') : l.fetch = l'.fetchReady := by
  rw [ready] at h
  simp only [fetch, h]
  rfl

/-! ### Up to the next token -/

/-- No byte order mark is passed over in what is written. -/
theorem not_byteOrderMark {ch : Char} (h : isShown ch = true) : ch ≠ byteOrderMark := by
  rintro rfl
  exact absurd h (by decide)

theorem skipSpace_starts {l : Lexer} (h : Starts l.cursor.rest) (fuel : Nat) :
    skipSpace (fuel + 1) l = l := by
  obtain ⟨⟨rest, m⟩, held, released, indent, indents, allowed, p, o⟩ := l
  replace h : Starts rest := h
  have hmark : (⟨rest, m⟩ : Cursor).sees byteOrderMark = false := by
    cases rest with
    | nil => rfl
    | cons c rest => simpa [Cursor.sees] using not_byteOrderMark (h c rfl).1
  have hblank (tabs : Bool) :
      (⟨rest, m⟩ : Cursor).skipWhile (fun ch => ch == ' ' || (tabs && ch == '\t')) = ⟨rest, m⟩ :=
    Cursor.skipWhile_of_head (h.not_passed tabs) m
  simp only [skipSpace, hmark, h.sees_number_sign, h.lineBreak?, hblank, Bool.and_false,
    Bool.false_eq_true, if_false]

theorem skipSpace_space (h : Starts rest) (fuel : Nat) :
    skipSpace (fuel + 1) (within v ⟨' ' :: rest, m⟩ held allowed p) =
      within v ⟨rest, m.step ' '⟩ held allowed p := by
  have hmark : (⟨' ' :: rest, m⟩ : Cursor).sees byteOrderMark = false := rfl
  have hblank (tabs : Bool) :
      (⟨' ' :: rest, m⟩ : Cursor).skipWhile (fun ch => ch == ' ' || (tabs && ch == '\t')) =
        ⟨rest, m.step ' '⟩ :=
    Cursor.skipWhile_cons rfl (h.not_passed tabs) rfl m
  simp only [skipSpace, within, hmark, h.sees_number_sign, h.lineBreak?, hblank, Bool.and_false,
    Bool.false_eq_true, if_false]

theorem skipSpace_feed (h : Starts rest) (fuel : Nat) :
    skipSpace (fuel + 2) (within v ⟨'\n' :: rest, m⟩ held allowed p) =
      within v ⟨rest, m.step '\n'⟩ held true p := by
  have hmark : (⟨'\n' :: rest, m⟩ : Cursor).sees byteOrderMark = false := rfl
  have hhash : (⟨'\n' :: rest, m⟩ : Cursor).sees '#' = false := rfl
  have hbreak : (⟨'\n' :: rest, m⟩ : Cursor).lineBreak? = some ('\n', ⟨rest, m.step '\n'⟩) :=
    Cursor.lineBreak?_cons rfl rfl rest m
  have hblank (tabs : Bool) :
      (⟨'\n' :: rest, m⟩ : Cursor).skipWhile (fun ch => ch == ' ' || (tabs && ch == '\t')) =
        ⟨'\n' :: rest, m⟩ := by
    refine Cursor.skipWhile_of_head ?_ m
    rintro c ⟨⟩
    cases tabs <;> rfl
  rw [skipSpace]
  simp only [hmark, hhash, hbreak, hblank, within, inFlow, List.isEmpty_nil, Bool.not_true,
    Bool.not_false, Bool.or_true, Bool.and_false, Bool.false_eq_true, if_false]
  exact skipSpace_starts h fuel

theorem dropStale_within (h : overdue c.mark p = false) :
    (within v c held allowed p).dropStale = .ok (within v c held allowed (fresh? c.mark p)) := by
  rw [within, dropStale_mk, h]
  rfl

/-- At a token nothing is passed over. -/
theorem ready_starts (h : Starts rest) (hp : overdue m p = false) :
    (within v ⟨rest, m⟩ held allowed p).ready =
      .ok (within v ⟨rest, m⟩ held allowed (fresh? m p)) := by
  have hskip : skipSpace (rest.length + 1) (within v ⟨rest, m⟩ held allowed p) =
      within v ⟨rest, m⟩ held allowed p := skipSpace_starts h rest.length
  exact (congrArg dropStale hskip).trans (dropStale_within hp)

theorem ready_space (h : Starts rest) (hp : overdue (m.step ' ') p = false) :
    (within v ⟨' ' :: rest, m⟩ held allowed p).ready =
      .ok (within v ⟨rest, m.step ' '⟩ held allowed (fresh? (m.step ' ') p)) := by
  rw [ready, skipSpace_space h, dropStale_within hp]

/-- After a line has ended a key may begin. -/
theorem ready_feed (h : Starts rest) (hp : overdue (m.step '\n') p = false) :
    (within v ⟨'\n' :: rest, m⟩ held allowed p).ready =
      .ok (within v ⟨rest, m.step '\n'⟩ held true (fresh? (m.step '\n') p)) := by
  have hlength : (within v ⟨'\n' :: rest, m⟩ held allowed p).cursor.rest.length + 1 =
      rest.length + 2 := rfl
  rw [ready, hlength, skipSpace_feed h, dropStale_within hp]

/-! ### Pending keys -/

/-- What may turn out to be a key when a token begins here. -/
def keyAt (v : Level) (m : Mark) (held : List Token) (allowed : Bool) : Option PendingKey :=
  if allowed then some ⟨v.indent == (m.column : Int), held.length, m⟩ else none

theorem saveKey_within :
    (within v c held allowed none).saveKey =
      .ok (within v c held allowed (keyAt v c.mark held allowed)) := by
  cases allowed with
  | false => rfl
  | true =>
      simp [saveKey, dropKey, within, keyAt, inFlow, mark]

/-- A key is given up when its line has ended. -/
theorem fresh?_keyAt (h : m.line < m'.line) : fresh? m' (keyAt v m held allowed) = none := by
  cases allowed with
  | false => rfl
  | true => simp [fresh?, keyAt, PendingKey.isStale, h]

/-- Right of the block around it nothing has to be a key. -/
theorem overdue_keyAt (h : v.indent < m.column) : overdue m' (keyAt v m held allowed) = false := by
  cases allowed with
  | false => rfl
  | true =>
      have hne : (v.indent == (m.column : Int)) = false := by
        rw [beq_eq_false_iff_ne]
        omega
      simp [overdue, keyAt, hne]

/-- On the same line a key waits for its colon, for so many characters. -/
theorem fresh_keyAt (hline : m'.line = m.line) (hindex : m'.index ≤ m.index + keyLength) :
    fresh? m' (keyAt v m held allowed) = keyAt v m held allowed ∧
      overdue m' (keyAt v m held allowed) = false := by
  cases allowed with
  | false => exact ⟨rfl, rfl⟩
  | true =>
      have hstale : PendingKey.isStale ⟨v.indent == (m.column : Int), held.length, m⟩ m' = false := by
        simp only [PendingKey.isStale, Bool.or_eq_false_iff, decide_eq_false_iff_not]
        omega
      simp [fresh?, overdue, keyAt, hstale]

/-! ### The next token -/

theorem unindent_within {column : Int} (h : v.indent ≤ column) :
    (within v c held allowed p).unindent column = within v c held allowed p := by
  cases v with
  | stream => rfl
  | mapping =>
      have hnot : ¬column < 0 := Int.not_lt.2 h
      simp [unindent, within, inFlow, Level.indents, Level.indent, closeBlocks, hnot]

theorem starts_indicator {c : Char} (hshown : isShown c = true) (hspace : isSpace c = false)
    (hhash : c ≠ '#') (rest : List Char) : Starts (c :: rest) := by
  rintro d ⟨⟩
  exact ⟨hshown, hspace, hhash⟩

theorem not_atDocumentMark {c : Char} (hdash : c ≠ '-') (hdot : c ≠ '.') (rest : List Char)
    (m : Mark) : (⟨c :: rest, m⟩ : Cursor).atDocumentMark = false := by
  simp [Cursor.atDocumentMark, Cursor.isRule, hdash, hdot]

/-- The next token is decided by its first character, unless that marks the line. -/
theorem fetchReady_of_unindent {l : Lexer} {ch : Char} (hindent : l.unindent l.mark.column = l)
    (hrest : l.cursor.peek = some ch) (hpercent : l.mark.column = 0 → ch ≠ '%')
    (hdoc : l.cursor.atDocumentMark = false) : l.fetchReady = l.fetchAt ch := by
  have hdirective : (l.mark.column == 0 && ch == '%') = false := by
    by_cases hcolumn : l.mark.column = 0
    · simp [hpercent hcolumn]
    · simp [hcolumn]
  rw [Cursor.atDocumentMark, Bool.or_eq_false_iff] at hdoc
  simp only [fetchReady, hindent, hrest, hdirective, hdoc.1, hdoc.2, Bool.false_eq_true, if_false]

theorem fetchReady_within {ch : Char} (h : v.indent ≤ m.column)
    (hpercent : m.column = 0 → ch ≠ '%')
    (hdoc : (⟨ch :: rest, m⟩ : Cursor).atDocumentMark = false) :
    (within v ⟨ch :: rest, m⟩ held allowed p).fetchReady =
      (within v ⟨ch :: rest, m⟩ held allowed p).fetchAt ch :=
  fetchReady_of_unindent (unindent_within h) rfl hpercent hdoc

end Lexer

end Yaml

end SecretResolver
