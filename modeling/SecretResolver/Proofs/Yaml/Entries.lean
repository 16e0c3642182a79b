/-
**The tokens of what is written.**

A mapping is written entry by entry, and each entry makes the same four tokens whether its key
stands on one line with the value or on lines of its own.  From the tokens of one entry those of
the whole mapping follow by going through the entries, and at the end of the stream the blocks are
closed.

Main definitions:

* `EntryTokens`, `MappingTokens` — what the tokens of an entry and of a mapping are;
* `Level.opening`, `Level.closing` — the tokens with which a mapping begins and ends;
* `Lexer.Through` — what the lexer makes of a text up to what comes after it.

Main results:

* `length_writeScalar_le` — a key on one line is never given up before its colon;
* `Lexer.through_writeEntry` — the tokens of an entry;
* `tokens_writeMapping`, `tokens_writeDocument` — **the tokens of what is written**.
-/

import SecretResolver.Proofs.Text.Utf8
import SecretResolver.Proofs.Yaml.ScalarToken

set_option relaxedAutoImplicit false
set_option autoImplicit false

namespace SecretResolver

namespace Yaml

variable {m m' : Mark} {cs rest : List Char} {s : String}

/-! ### The length of a key -/

/-- Between quotes a character takes at most four times its bytes. -/
theorem length_flatMap_spell_le (q : Quote) (cs : List Char) :
    (cs.flatMap q.spell).length ≤ 4 * (Utf8.encode cs).length := by
  induction cs with
  | nil => exact Nat.le_refl _
  | cons c cs ih =>
      have hpos : 0 < c.utf8Size := c.utf8Size_pos
      have hc : (q.spell c).length ≤ 4 * c.utf8Size := by
        cases q with
        | single =>
            rw [Quote.spell]
            split
            · simp only [List.length_cons, List.length_nil]
              omega
            · simp only [List.length_cons, List.length_nil]
              omega
        | double =>
            rw [Quote.spell]
            split
            · exact length_writeEscape_le c
            · simp only [List.length_cons, List.length_nil]
              omega
      rw [List.flatMap_cons, List.length_append, Utf8.length_encode_cons]
      omega

theorem isBreak_of_mem_spell_double {c d : Char} (h : d ∈ Quote.double.spell c) :
    isBreak d = false := by
  rw [Quote.spell] at h
  split at h
  · exact (line_of_mem_writeEscape h).1
  · rename_i hc
    simp only [Bool.or_eq_true, not_or, Bool.not_eq_true] at hc
    obtain rfl := List.mem_singleton.1 h
    exact hc.1.1.2

/-- Few characters take one line within quotes, and are few with them, too. -/
theorem length_quoted_le (q : Quote) {cs : List Char} (hbytes : (Utf8.encode cs).length ≤ 128)
    (hspelled : ∀ d ∈ cs.flatMap q.spell, isBreak d = false) :
    (∀ d ∈ q.char :: cs.flatMap q.spell ++ [q.char], isBreak d = false) ∧
      (q.char :: cs.flatMap q.spell ++ [q.char]).length ≤ keyLength := by
  have hspell := length_flatMap_spell_le q cs
  have hquote : isBreak q.char = false := isBreak_of_not_isSpace q.isSpace_char
  refine ⟨?_, ?_⟩
  · intro d hd
    rcases List.mem_append.1 hd with hd | hd
    · rcases List.mem_cons.1 hd with rfl | hd
      · exact hquote
      · exact hspelled d hd
    · rw [List.mem_singleton.1 hd]
      exact hquote
  · rw [List.length_append, List.length_cons, List.length_singleton, keyLength]
    omega

/-- A key that stands on a line with its value takes one line, and few characters. -/
theorem length_writeScalar_le (h : isSimpleKey s = true) :
    (∀ c ∈ writeScalar s, isBreak c = false) ∧ (writeScalar s).length ≤ keyLength := by
  obtain ⟨hline, hsize⟩ := Lexer.isSimpleKey_line h
  have hbytes : (Utf8.encode s.toList).length ≤ 128 := by
    have hlength := Utf8.length_ofString s
    rw [Utf8.ofString] at hlength
    rw [hlength]
    exact hsize
  have hlength := Utf8.length_le_encode s.toList
  cases hform : formOf s with
  | literal => exact absurd hform (Lexer.formOf_of_isSimpleKey h)
  | plain =>
      have hwritten : writeScalar s = s.toList := by simp [writeScalar, writeAs, hform]
      rw [hwritten, keyLength]
      exact ⟨hline, by omega⟩
  | single =>
      have hwritten : writeScalar s = '\x27' :: s.toList.flatMap Quote.single.spell ++ ['\x27'] := by
        rw [writeScalar, hform, writeAs, writeSingle_eq, singleBody_of_line hline]
      rw [hwritten]
      exact length_quoted_le .single hbytes (isBreak_of_mem_spell hline)
  | double =>
      have hwritten : writeScalar s = '"' :: s.toList.flatMap Quote.double.spell ++ ['"'] := by
        rw [writeScalar, hform]
        rfl
      rw [hwritten]
      refine length_quoted_le .double hbytes ?_
      intro d hd
      obtain ⟨c, -, hd⟩ := List.mem_flatMap.1 hd
      exact isBreak_of_mem_spell_double hd

/-! ### Entries -/

/-- The token with which a mapping begins. -/
def Level.opening (v : Level) (m : Mark) : List Token :=
  match v with
  | .stream => [⟨.blockMappingStart, m, m⟩]
  | .mapping => []

/-- The tokens that close the blocks at the end of the stream. -/
def Level.closing (v : Level) (m : Mark) : List Token :=
  match v with
  | .stream => []
  | .mapping => [⟨.blockEnd, m, m⟩]

theorem Level.closing_kind (v : Level) (m : Mark) :
    ∀ t ∈ Level.closing v m, t.kind = .blockEnd := by
  cases v with
  | stream => exact fun t ht => nomatch ht
  | mapping =>
      intro t ht
      rw [List.mem_singleton.1 ht]

/-- The tokens of an entry: its key and its value. -/
structure EntryTokens (e : String × String) (ts : List Token) : Prop where
  tokens : ∃ k t w u : Token, ts = [k, t, w, u] ∧ k.kind = .key ∧
    t.kind = .scalar e.1.toList (styleOf e.1) ∧ w.kind = .value ∧
    u.kind = .scalar e.2.toList (styleOf e.2)

/-- The tokens of some entries, one after another. -/
inductive MappingTokens : List (String × String) → List Token → Prop
  | nil : MappingTokens [] []
  | cons {e : String × String} {es : List (String × String)} {ts us : List Token}
      (h : EntryTokens e ts) (hs : MappingTokens es us) : MappingTokens (e :: es) (ts ++ us)

namespace Lexer

variable {v : Level} {held : List Token} {allowed : Bool} {l : Lexer}

/-- After a key that is pending, the colon makes it one, and a mapping begins with the first such
key. -/
theorem fetchValue_keyAt (hm : m.column = 0) (t : Token) :
    (within v ⟨':' :: rest, m'⟩ (held ++ [t]) false (keyAt v m held true)).fetchValue =
      .ok (within .mapping ⟨rest, m'.step ':'⟩
        (held ++ v.opening m ++ [⟨.key, m, m⟩, t, ⟨.value, m', m'.step ':'⟩]) false none) := by
  have hstep : m'.step ':' = ⟨m'.index + 1, m'.line, m'.column + 1⟩ := Mark.step_of_line rfl m'
  cases v with
  | stream =>
      simp [fetchValue, within, keyAt, insert, openBlock, inFlow, emitHere, mark, Level.opening,
        Level.indent, Level.indents, hm, Cursor.skip, hstep]
  | mapping =>
      simp [fetchValue, within, keyAt, insert, openBlock, inFlow, emitHere, mark, Level.opening,
        Level.indent, Level.indents, hm, Cursor.skip, hstep]

/-- A question mark at the start of a line says that a key comes, and with the first one a mapping
begins. -/
theorem fetchKey_within (hm : m.column = 0) :
    (within v ⟨'?' :: rest, m⟩ held true none).fetchKey =
      .ok (within .mapping ⟨rest, m.step '?'⟩ (held ++ v.opening m ++ [⟨.key, m, m.step '?'⟩])
        true none) := by
  have hstep : m.step '?' = ⟨m.index + 1, m.line, m.column + 1⟩ := Mark.step_of_line rfl m
  cases v with
  | stream =>
      simp [fetchKey, openHere, dropKey, within, openBlock, inFlow, emit, emitHere, mark,
        Level.opening, Level.indent, Level.indents, hm, Cursor.skip, hstep]
  | mapping =>
      simp [fetchKey, openHere, dropKey, within, openBlock, inFlow, emitHere, mark,
        Level.opening, Level.indent, Level.indents, hm, Cursor.skip, hstep]

/-- A colon at the start of a line says that the value of the key before it comes. -/
theorem fetchValue_within (hm : m.column = 0) :
    (within .mapping ⟨':' :: rest, m⟩ held true none).fetchValue =
      .ok (within .mapping ⟨rest, m.step ':'⟩ (held ++ [⟨.value, m, m.step ':'⟩]) true none) := by
  have hstep : m.step ':' = ⟨m.index + 1, m.line, m.column + 1⟩ := Mark.step_of_line rfl m
  simp [fetchValue, openHere, within, openBlock, inFlow, emitHere, mark, Level.indent,
    Level.indents, hm, Cursor.skip, hstep]

theorem writeLines_starts (s : String) (rest : List Char) : Starts (writeLines s ++ rest) := by
  rw [writeLines, List.append_assoc]
  exact writeScalar_starts s _

/-- The lexer has gone through some entries and is at the start of a line. -/
def Through (n : Nat) (l : Lexer) (rest : List Char) (held : List Token) : Prop :=
  ∃ l' m, fetchTimes n l = .ok l' ∧ l'.ready = .ok (within .mapping ⟨rest, m⟩ held true none) ∧
    m.column = 0

/-- The next token is the colon after a key. -/
theorem fetch_colon {p : Option PendingKey} {l' : Lexer}
    (hl : l.ready = .ok (within v ⟨':' :: ' ' :: rest, m⟩ held allowed p))
    (h : (within v ⟨':' :: ' ' :: rest, m⟩ held allowed p).fetchValue = .ok l') :
    l.fetch = .ok l' := by
  have hdoc := not_atDocumentMark (c := ':') (by decide) (by decide) (' ' :: rest) m
  rw [fetch_of_ready hl, fetchReady_within (Level.indent_le v _) (fun _ => by decide) hdoc]
  exact h

/-- When a space and a scalar on lines of its own are left after a token, the scalar is the next
one. -/
theorem through_scalar (s : String) (hrest : Starts rest)
    (h : l.fetch = .ok (within .mapping ⟨' ' :: (writeLines s ++ rest), m⟩ held allowed none)) :
    ∃ t, t.kind = .scalar s.toList (styleOf s) ∧ Through 2 l rest (held ++ [t]) := by
  have hready : (within .mapping ⟨' ' :: (writeLines s ++ rest), m⟩ held allowed none).ready =
      .ok (within .mapping ⟨writeLines s ++ rest, m.step ' '⟩ held allowed none) :=
    ready_space (writeLines_starts s rest) rfl
  have hcolumn : Level.mapping.indent < ((m.step ' ').column : Int) := by
    rw [Mark.step_of_line rfl]
    exact Int.natCast_pos.2 (Nat.succ_pos _)
  have hscanned : Scanned .mapping held s rest
      (within .mapping ⟨writeLines s ++ rest, m.step ' '⟩ held allowed none).fetchReady :=
    scanned_writeLines s hcolumn hrest (fun h => nomatch h)
  rw [← fetch_of_ready hready] at hscanned
  obtain ⟨l', t, m', hfetch, ht, hnext, hm'⟩ := hscanned
  exact ⟨t, ht, l', m', fetchTimes_trans (fetchTimes_one h) (fetchTimes_one hfetch), hnext, hm'⟩

/-- **A key before its colon** makes three tokens, and what the lexer is then left with is the value
after a space. -/
theorem fetch_simpleKey {name : String} (hname : isSimpleKey name = true) (hm : m.column = 0)
    (hl : l.ready = .ok (within v ⟨writeScalar name ++ ':' :: ' ' :: rest, m⟩ held true none)) :
    ∃ t l' m', t.kind = .scalar name.toList (styleOf name) ∧ fetchTimes 1 l = .ok l' ∧
      l'.fetch = .ok (within .mapping ⟨' ' :: rest, m'.step ':'⟩
        (held ++ v.opening m ++ [⟨.key, m, m⟩, t, ⟨.value, m', m'.step ':'⟩]) false none) := by
  obtain ⟨t, ht, hkey⟩ := fetchReady_key hname (Level.indent_le v m.column) held rest
  rw [← fetch_of_ready hl] at hkey
  obtain ⟨hline, hlength⟩ := length_writeScalar_le hname
  generalize writeScalar name = written at hline hlength hkey
  -- the colon comes soon enough for the key to be still pending
  have hpending : fresh? (m.after written) (keyAt v m held true) = keyAt v m held true ∧
      overdue (m.after written) (keyAt v m held true) = false := by
    refine fresh_keyAt ?_ ?_
    · rw [Mark.after_of_line hline]
    · rw [Mark.after_of_line hline]
      exact Nat.add_le_add_left hlength _
  have hready : (within v ⟨':' :: ' ' :: rest, m.after written⟩ (held ++ [t]) false
      (keyAt v m held true)).ready =
        .ok (within v ⟨':' :: ' ' :: rest, m.after written⟩ (held ++ [t]) false
          (keyAt v m held true)) := by
    rw [ready_starts (starts_indicator rfl rfl (by decide) _) hpending.2, hpending.1]
  exact ⟨t, _, m.after written, ht, fetchTimes_one hkey,
    fetch_colon hready (fetchValue_keyAt hm t)⟩

/-- **The tokens of an entry** whose key stands on a line with its value. -/
theorem through_simple {e : String × String} (he : isSimpleKey e.1 = true) (hm : m.column = 0)
    (hrest : Starts rest)
    (hl : l.ready = .ok (within v
      ⟨writeScalar e.1 ++ ':' :: ' ' :: (writeLines e.2 ++ rest), m⟩ held true none)) :
    ∃ ts, EntryTokens e ts ∧ Through 3 l rest (held ++ v.opening m ++ ts) := by
  obtain ⟨t, l₁, m₁, ht, hkey, hcolon⟩ := fetch_simpleKey he hm hl
  obtain ⟨u, hu, l', m', hvalue, hnext, hm'⟩ := through_scalar e.2 hrest hcolon
  rw [List.append_assoc] at hnext
  exact ⟨_, ⟨⟨.key, m, m⟩, t, _, u, rfl, rfl, ht, rfl, hu⟩, l', m',
    fetchTimes_trans hkey hvalue, hnext, hm'⟩

/-- The next token is the question mark before a key. -/
theorem fetch_question (hm : m.column = 0)
    (hl : l.ready = .ok (within v ⟨'?' :: ' ' :: rest, m⟩ held true none)) :
    l.fetch = .ok (within .mapping ⟨' ' :: rest, m.step '?'⟩
      (held ++ v.opening m ++ [⟨.key, m, m.step '?'⟩]) true none) := by
  have hdoc := not_atDocumentMark (c := '?') (by decide) (by decide) (' ' :: rest) m
  rw [fetch_of_ready hl, fetchReady_within (Level.indent_le v _) (fun _ => by decide) hdoc]
  exact fetchKey_within hm

/-- **The tokens of an entry** whose key stands on lines of its own. -/
theorem through_complex {e : String × String} (hm : m.column = 0) (hrest : Starts rest)
    (hl : l.ready = .ok (within v
      ⟨'?' :: ' ' :: (writeLines e.1 ++ ':' :: ' ' :: (writeLines e.2 ++ rest)), m⟩
        held true none)) :
    ∃ ts, EntryTokens e ts ∧ Through 4 l rest (held ++ v.opening m ++ ts) := by
  have hstarts : Starts (':' :: ' ' :: (writeLines e.2 ++ rest)) :=
    starts_indicator rfl rfl (by decide) _
  obtain ⟨t, ht, l₁, m₁, hkey, hready, hm₁⟩ := through_scalar e.1 hstarts (fetch_question hm hl)
  obtain ⟨u, hu, l₂, m₂, hvalue, hnext, hm₂⟩ :=
    through_scalar e.2 hrest (fetch_colon hready (fetchValue_within hm₁))
  simp only [List.append_assoc, List.cons_append, List.nil_append] at hnext
  refine ⟨_, ⟨⟨.key, m, m.step '?'⟩, t, ⟨.value, m₁, m₁.step ':'⟩, u, rfl, rfl, ht, rfl, hu⟩, l₂, m₂,
    fetchTimes_trans hkey hvalue, ?_, hm₂⟩
  simpa only [List.append_assoc] using hnext

/-- **The tokens of an entry.** -/
theorem through_writeEntry (e : String × String) (hm : m.column = 0) (hrest : Starts rest)
    (hl : l.ready = .ok (within v ⟨writeEntry e ++ rest, m⟩ held true none)) :
    ∃ n ≤ 4, ∃ ts, EntryTokens e ts ∧ Through n l rest (held ++ v.opening m ++ ts) := by
  rw [writeEntry] at hl
  cases he : isSimpleKey e.1 with
  | true =>
      rw [if_pos he, List.append_assoc, List.append_assoc] at hl
      exact ⟨3, by omega, through_simple he hm hrest hl⟩
  | false =>
      rw [if_neg (by rw [he]; exact Bool.false_ne_true), List.append_assoc, List.append_assoc,
        List.append_assoc] at hl
      exact ⟨4, Nat.le_refl 4, through_complex hm hrest hl⟩

theorem writeEntry_starts (e : String × String) (rest : List Char) :
    Starts (writeEntry e ++ rest) := by
  rw [writeEntry]
  split
  · rw [List.append_assoc, List.append_assoc]
    exact writeScalar_starts e.1 _
  · exact starts_indicator rfl rfl (by decide) _

theorem writeEntries_starts (es : List (String × String)) : Starts (es.flatMap writeEntry) := by
  cases es with
  | nil => exact starts_nil
  | cons e es => exact writeEntry_starts e _

/-- **The tokens of some entries**, one after another. -/
theorem through_entries (es : List (String × String)) (hm : m.column = 0)
    (hl : l.ready = .ok (within .mapping ⟨es.flatMap writeEntry, m⟩ held true none)) :
    ∃ n ≤ 4 * es.length, ∃ ts, MappingTokens es ts ∧ Through n l [] (held ++ ts) := by
  induction es generalizing l m held with
  | nil => exact ⟨0, Nat.le_refl 0, [], .nil, l, m, rfl, by rwa [List.append_nil], hm⟩
  | cons e es ih =>
      obtain ⟨n, hn, ts, hts, l₁, m₁, hentry, hready, hm₁⟩ :=
        through_writeEntry e hm (writeEntries_starts es) hl
      obtain ⟨k, hk, us, hus, l₂, m₂, hentries, hready₂, hm₂⟩ := ih hm₁ hready
      refine ⟨n + k, ?_, ts ++ us, .cons hts hus, l₂, m₂, fetchTimes_trans hentry hentries, ?_, hm₂⟩
      · rw [List.length_cons]
        omega
      · simpa [Level.opening] using hready₂

/-! ### Beginning and end of the stream -/

theorem ready_start (h : Starts cs) :
    (start cs).ready = .ok (within .stream ⟨cs, .zero⟩ [] true none) := by
  have hstart : start cs = within .stream ⟨cs, .zero⟩ [] true none := rfl
  rw [hstart, ready_starts h rfl]
  rfl

/-- At the end of the stream the blocks are closed, and the stream is over. -/
theorem fetch_end (hm : m.column = 0) (hl : l.ready = .ok (within v ⟨[], m⟩ held true none))
    (hheld : ∀ t ∈ held, t.kind ≠ .streamEnd) :
    ∃ l', l.fetch = .ok l' ∧ l'.held = held ++ (Level.closing v m ++ [⟨.streamEnd, m, m⟩]) ∧
      l'.Done := by
  have hfetch : l.fetch = (within v ⟨[], m⟩ held true none).fetchEnd := by
    rw [fetch_of_ready hl]
    have hmark : (within v ⟨[], m⟩ held true none).mark = m := rfl
    simp only [fetchReady, hmark, unindent_within (Level.indent_le v m.column)]
    rfl
  have hend : (within v ⟨[], m⟩ held true none).fetchEnd =
      .ok ⟨⟨[], m⟩, held ++ (Level.closing v m ++ [⟨.streamEnd, m, m⟩]), 0, -1, [], false, none,
        []⟩ := by
    cases v <;> simp [fetchEnd, within, hm, unindent, inFlow, closeBlocks, Level.indent,
      Level.indents, emit, dropKey, mark, Level.closing]
  refine ⟨_, hfetch.trans hend, rfl, rfl, rfl, held ++ Level.closing v m, ⟨.streamEnd, m, m⟩,
    (List.append_assoc ..).symm, rfl, ?_⟩
  intro t ht
  rcases List.mem_append.1 ht with ht | ht
  · exact hheld t ht
  · rw [Level.closing_kind v m t ht]
    exact TokenKind.noConfusion

end Lexer

/-! ### Streams -/

theorem EntryTokens.kind {e : String × String} {ts : List Token} (h : EntryTokens e ts) :
    ts.length = 4 ∧ ∀ t ∈ ts, t.kind ≠ .streamEnd := by
  obtain ⟨k, t, w, u, rfl, hk, ht, hw, hu⟩ := h
  refine ⟨rfl, ?_⟩
  simp [hk, ht, hw, hu]

theorem MappingTokens.kind {es : List (String × String)} {ts : List Token}
    (h : MappingTokens es ts) : ts.length = 4 * es.length ∧ ∀ t ∈ ts, t.kind ≠ .streamEnd := by
  induction h with
  | nil => exact ⟨rfl, fun t ht => nomatch ht⟩
  | cons h hs ih =>
      obtain ⟨hlength, hkind⟩ := h.kind
      refine ⟨?_, ?_⟩
      · rw [List.length_append, List.length_cons, hlength, ih.1]
        omega
      · intro t ht
        rcases List.mem_append.1 ht with ht | ht
        · exact hkind t ht
        · exact ih.2 t ht

theorem length_le_writeEntries (es : List (String × String)) :
    es.length ≤ (es.flatMap writeEntry).length := by
  induction es with
  | nil => exact Nat.le_refl _
  | cons e es ih =>
      have hentry : 0 < (writeEntry e).length := by
        rw [writeEntry]
        split <;> simp
      rw [List.flatMap_cons, List.length_append, List.length_cons]
      omega

/-- The tokens at the end of a stream of one mapping. -/
def closingTokens (m : Mark) : List Token := [⟨.blockEnd, m, m⟩, ⟨.streamEnd, m, m⟩]

/-- **The tokens of a mapping.** -/
theorem tokens_writeMapping {es : List (String × String)} (hes : es ≠ []) :
    ∃ t ts m, t.kind = .blockMappingStart ∧ MappingTokens es ts ∧
      tokens (writeMapping es) = (t :: (ts ++ closingTokens m), none) := by
  obtain ⟨e, es, rfl⟩ := List.exists_cons_of_ne_nil hes
  have hwritten : writeMapping (e :: es) = writeEntry e ++ es.flatMap writeEntry := rfl
  have hready := Lexer.ready_start (Lexer.writeEntry_starts e (es.flatMap writeEntry))
  obtain ⟨n, hn, ts, hts, l₁, m₁, hentry, hready₁, hm₁⟩ :=
    Lexer.through_writeEntry e rfl (Lexer.writeEntries_starts es) hready
  obtain ⟨k, hk, us, hus, l₂, m₂, hentries, hready₂, hm₂⟩ := Lexer.through_entries es hm₁ hready₁
  have hall := MappingTokens.cons hts hus
  obtain ⟨hlength, hkind⟩ := hall.kind
  have hheld : [] ++ Level.opening .stream .zero ++ ts ++ us =
      (⟨.blockMappingStart, .zero, .zero⟩ : Token) :: (ts ++ us) := by
    simp [Level.opening]
  rw [hheld] at hready₂
  obtain ⟨l₃, hend, hheld₃, hdone⟩ := Lexer.fetch_end hm₂ hready₂ (by simpa using hkind)
  have htimes := Lexer.fetchTimes_trans (Lexer.fetchTimes_trans hentry hentries)
    (Lexer.fetchTimes_one hend)
  have hchars : (e :: es).length ≤ (writeMapping (e :: es)).length := length_le_writeEntries (e :: es)
  have hfuel : n + k + 1 + l₃.held.length ≤ 8 * (writeMapping (e :: es)).length + 8 := by
    rw [hheld₃, Level.closing]
    simp only [List.length_append, List.length_cons, List.length_nil] at hlength hchars ⊢
    omega
  refine ⟨⟨.blockMappingStart, .zero, .zero⟩, ts ++ us, m₂, rfl, hall, ?_⟩
  rw [← hwritten] at htimes
  rw [tokens_of_fetchTimes htimes hdone hfuel, hheld₃]
  rfl

/-- **The tokens of a text.** -/
theorem tokens_writeDocument (s : String) :
    ∃ t m, t.kind = .scalar s.toList (styleOf s) ∧
      tokens (writeDocument s) = ([t, ⟨.streamEnd, m, m⟩], none) := by
  have hready := Lexer.ready_start (Lexer.writeLines_starts s [])
  have hscanned : Lexer.Scanned .stream [] s []
      (Lexer.within .stream ⟨writeLines s ++ [], .zero⟩ [] true none).fetchReady :=
    Lexer.scanned_writeLines s (by decide) starts_nil fun _ => rfl
  rw [← Lexer.fetch_of_ready hready, List.append_nil] at hscanned
  obtain ⟨l₁, t, m, hfetch, ht, hready₁, hm⟩ := hscanned
  obtain ⟨l₂, hend, hheld, hdone⟩ := Lexer.fetch_end hm hready₁ (by simp [ht])
  have htimes := Lexer.fetchTimes_trans (Lexer.fetchTimes_one hfetch) (Lexer.fetchTimes_one hend)
  have hfuel : 1 + 1 + l₂.held.length ≤ 8 * (writeDocument s).length + 8 := by
    rw [hheld]
    simp [Level.closing]
  refine ⟨t, m, ht, ?_⟩
  rw [writeDocument, tokens_of_fetchTimes htimes hdone hfuel, hheld]
  rfl

end Yaml

end SecretResolver
