/-
**Tokens are released in the order in which they are held.**

The lexer releases a token as soon as no pending key can begin with it, and fetches more tokens in
between.  What it releases in the end does not depend on this: it is what would be held if every
token were kept until the end of the stream was fetched.

Main definitions:

* `Lexer.keep` — the lexer as if it had not released its last token;
* `Lexer.Ahead` — pending keys begin with tokens that are still held;
* `Lexer.Uniform` — a step that takes no notice of tokens released before;
* `Lexer.fetchTimes` — fetching some tokens without releasing any.

Main results:

* `Lexer.uniform_fetch` — fetching takes no notice of tokens released before;
* `Lexer.fetch_of_dropStale` — nor of stale keys being given up earlier than it does so itself;
* `Lexer.run_of_fetchTimes`, `tokens_of_fetchTimes` — **what is released is what would be held**.
-/

import SecretResolver.Yaml.Token

set_option relaxedAutoImplicit false
set_option autoImplicit false

namespace SecretResolver

namespace Yaml

namespace Lexer

variable {r : Nat} {l l' : Lexer} {t : Token} {x x' : Except Mark Lexer}

/-! ### Tokens released before -/

/-- The lexer as if it had not released its last token, which was `t`. -/
def keep (t : Token) (l : Lexer) : Lexer :=
  { l with held := t :: l.held, released := l.released - 1 }

/-- So many tokens were released, and pending keys begin with tokens that are still held. -/
structure Ahead (r : Nat) (l : Lexer) : Prop where
  released : l.released = r
  pending : ∀ k, l.pending = some k → r ≤ k.number
  outer : ∀ k, some k ∈ l.outer → r ≤ k.number

/-- `x'` is what `x` would be if `t`, the last of `r` tokens, had not been released. -/
structure Follows (r : Nat) (t : Token) (x' x : Except Mark Lexer) : Prop where
  eq : 0 < r → x' = x.map (keep t)
  ahead : ∀ l, x = .ok l → l.Ahead r

theorem follows_ok (heq : 0 < r → l' = l.keep t) (hl : l.Ahead r) :
    Follows r t (.ok l') (.ok l) := by
  refine ⟨fun hr => congrArg Except.ok (heq hr), ?_⟩
  rintro l₁ ⟨⟩
  exact hl

theorem follows_error (m : Mark) : Follows r t (.error m) (.error m) :=
  ⟨fun _ => rfl, fun _ h => nomatch h⟩

/-- A step after another one. -/
theorem Follows.bind {f f' : Lexer → Except Mark Lexer} : Follows r t x' x →
    (∀ l, l.Ahead r → Follows r t (f' (l.keep t)) (f l)) →
    Follows r t
      (match x' with
        | .error m => .error m
        | .ok l => f' l)
      (match x with
        | .error m => .error m
        | .ok l => f l) := by
  rintro ⟨heq, hahead⟩ hf
  cases x with
  | error m =>
      refine ⟨fun hr => ?_, fun _ h => nomatch h⟩
      rw [heq hr]
      rfl
  | ok l =>
      have hl := hf l (hahead l rfl)
      refine ⟨fun hr => ?_, hl.ahead⟩
      rw [heq hr]
      exact hl.eq hr

/-- One of two steps. -/
theorem Follows.ite {p : Prop} [Decidable p] {y y' : Except Mark Lexer} (hx : Follows r t x' x)
    (hy : Follows r t y' y) : Follows r t (if p then x' else y') (if p then x else y) := by
  split
  · exact hx
  · exact hy

/-- A step that takes no notice of tokens released before. -/
def Uniform (f : Lexer → Except Mark Lexer) : Prop :=
  ∀ r l t, l.Ahead r → Follows r t (f (l.keep t)) (f l)

/-! ### Changes -/

/-- Only what pending keys begin with has to be looked at. -/
theorem Ahead.of_eq (hl : l.Ahead r) (hr : l'.released = l.released) (hp : l'.pending = l.pending)
    (ho : l'.outer = l.outer) : l'.Ahead r := by
  refine ⟨hr.trans hl.released, ?_, ?_⟩
  · rw [hp]
    exact hl.pending
  · rw [ho]
    exact hl.outer

/-- Inserting a token before one that is still held. -/
theorem Ahead.keep_insert (hl : l.Ahead r) (hpos : 0 < r) {number : Nat} (hn : r ≤ number)
    (t u : Token) : (l.keep t).insert number u = (l.insert number u).keep t := by
  have hreleased := hl.released
  have hsub : number - (l.released - 1) = (number - l.released) + 1 := by omega
  simp [insert, keep, hsub]

theorem keep_closeBlocks (column : Int) (fuel : Nat) (hl : l.Ahead r) (t : Token) :
    closeBlocks column fuel (l.keep t) = (closeBlocks column fuel l).keep t ∧
      (closeBlocks column fuel l).Ahead r := by
  induction fuel generalizing l with
  | zero => exact ⟨rfl, hl⟩
  | succ fuel ih =>
      have hindent : (l.keep t).indent = l.indent := rfl
      have hindents : (l.keep t).indents = l.indents := rfl
      rw [closeBlocks, closeBlocks, hindent, hindents]
      split
      · cases l.indents with
        | nil => exact ⟨rfl, hl⟩
        | cons i is =>
            have hl' : ({ l with indent := i, indents := is }.emit
                ⟨.blockEnd, l.mark, l.mark⟩).Ahead r := hl.of_eq rfl rfl rfl
            exact ih hl'
      · exact ⟨rfl, hl⟩

theorem keep_unindent (column : Int) (hl : l.Ahead r) (t : Token) :
    (l.keep t).unindent column = (l.unindent column).keep t ∧ (l.unindent column).Ahead r := by
  have hindents : (l.keep t).indents = l.indents := rfl
  have hflow : (l.keep t).inFlow = l.inFlow := rfl
  rw [unindent, unindent, hindents, hflow]
  split
  · exact ⟨rfl, hl⟩
  · exact keep_closeBlocks column l.indents.length hl t

theorem keep_skipSpace (fuel : Nat) (hl : l.Ahead r) (t : Token) :
    skipSpace fuel (l.keep t) = (skipSpace fuel l).keep t ∧ (skipSpace fuel l).Ahead r := by
  induction fuel generalizing l with
  | zero => exact ⟨rfl, hl⟩
  | succ fuel ih =>
      have hcursor : (l.keep t).cursor = l.cursor := rfl
      have hkey : (l.keep t).keyAllowed = l.keyAllowed := rfl
      have hflow : (l.keep t).inFlow = l.inFlow := rfl
      simp only [skipSpace, hcursor, hkey, hflow]
      split
      · rename_i c _
        have hl' : Ahead r { l with cursor := c, keyAllowed := l.keyAllowed || !l.inFlow } :=
          hl.of_eq rfl rfl rfl
        exact ih hl'
      · exact ⟨rfl, hl.of_eq rfl rfl rfl⟩

/-! ### Keys -/

theorem uniform_dropKey : Uniform dropKey := by
  intro r l t hl
  have hpending : (l.keep t).pending = l.pending := rfl
  have hmark : (l.keep t).mark = l.mark := rfl
  simp only [dropKey, hpending, hmark]
  cases l.pending with
  | none => exact follows_ok (fun _ => rfl) hl
  | some k =>
      dsimp only
      split
      · exact follows_error _
      · exact follows_ok (fun _ => rfl) ⟨hl.released, (fun _ h => nomatch h), hl.outer⟩

theorem uniform_saveKey : Uniform saveKey := by
  intro r l t hl
  have hallowed : (l.keep t).keyAllowed = l.keyAllowed := rfl
  rw [saveKey, saveKey, hallowed]
  split
  · refine (uniform_dropKey r l t hl).bind ?_
    intro l hl
    have hreleased := hl.released
    refine follows_ok ?_ ⟨hl.released, ?_, hl.outer⟩
    · intro hpos
      -- the key begins with the next token, whose number is the same
      have hnumber : (l.keep t).released + (l.keep t).held.length =
          l.released + l.held.length := by
        simp only [keep, List.length_cons]
        omega
      rw [hnumber]
      rfl
    · rintro k ⟨⟩
      dsimp only
      omega
  · exact follows_ok (fun _ => rfl) hl

theorem uniform_dropStale : Uniform dropStale := by
  intro r l t hl
  have hpending : (l.keep t).pending = l.pending := rfl
  have houter : (l.keep t).outer = l.outer := rfl
  have hmark : (l.keep t).mark = l.mark := rfl
  simp only [dropStale, hpending, houter, hmark]
  split
  · exact follows_error _
  · refine follows_ok (fun _ => rfl) ⟨hl.released, ?_, ?_⟩
    · intro k hk
      dsimp only at hk
      split at hk
      · exact nomatch hk
      · exact hl.pending k hk
    · intro k hk
      dsimp only at hk
      obtain ⟨k', hk', heq⟩ := List.mem_map.1 hk
      split at heq
      · exact nomatch heq
      · exact hl.outer k (heq ▸ hk')

/-! ### Tokens -/

theorem uniform_fetchEnd : Uniform fetchEnd := by
  intro r l t hl
  have hmark : (l.keep t).mark = l.mark := rfl
  simp only [fetchEnd, hmark]
  have hcursor : Ahead r { l with cursor := ⟨l.cursor.rest,
      if l.mark.column = 0 then l.mark else ⟨l.mark.index, l.mark.line + 1, 0⟩⟩ } :=
    hl.of_eq rfl rfl rfl
  obtain ⟨heq, hahead⟩ := keep_unindent (-1) hcursor t
  have hdrop := uniform_dropKey r _ t hahead
  rw [← heq] at hdrop
  exact hdrop.bind fun l hl => follows_ok (fun _ => rfl) (hl.of_eq rfl rfl rfl)

/-- After a step outside of all blocks a key is given up. -/
theorem follows_unindent_dropKey (hl : l.Ahead r) (t : Token) :
    Follows r t ((l.keep t).unindent (-1)).dropKey (l.unindent (-1)).dropKey := by
  obtain ⟨heq, hahead⟩ := keep_unindent (-1) hl t
  rw [heq]
  exact uniform_dropKey r _ t hahead

theorem uniform_fetchDirective : Uniform fetchDirective := by
  intro r l t hl
  refine (follows_unindent_dropKey hl t).bind ?_
  intro l hl
  have hcursor : (l.keep t).cursor = l.cursor := rfl
  rw [hcursor]
  cases directive l.cursor with
  | error m => exact follows_error m
  | ok r => exact follows_ok (fun _ => rfl) (hl.of_eq rfl rfl rfl)

theorem uniform_fetchDocumentMark (kind : TokenKind) : Uniform (fetchDocumentMark · kind) := by
  intro r l t hl
  refine (follows_unindent_dropKey hl t).bind ?_
  intro l hl
  exact follows_ok (fun _ => rfl) (hl.of_eq rfl rfl rfl)

theorem uniform_fetchOpening (kind : TokenKind) : Uniform (fetchOpening · kind) := by
  intro r l t hl
  refine (uniform_saveKey r l t hl).bind ?_
  intro l hl
  refine follows_ok (fun _ => rfl) ⟨hl.released, (fun _ h => nomatch h), ?_⟩
  intro k hk
  replace hk : some k ∈ l.pending :: l.outer := hk
  rcases List.mem_cons.1 hk with hk | hk
  · exact hl.pending k hk.symm
  · exact hl.outer k hk

theorem uniform_fetchClosing (kind : TokenKind) : Uniform (fetchClosing · kind) := by
  intro r l t hl
  refine (uniform_dropKey r l t hl).bind ?_
  intro l hl
  have houter : (l.keep t).outer = l.outer := rfl
  dsimp only
  rw [houter]
  cases ho : l.outer with
  | nil => exact follows_ok (fun _ => rfl) (hl.of_eq rfl rfl (by simp [emitHere, ho]))
  | cons k ks =>
      refine follows_ok (fun _ => rfl) ⟨hl.released, ?_, ?_⟩
      · intro k' hk'
        refine hl.outer k' ?_
        rw [ho]
        exact List.mem_cons.2 (.inl hk'.symm)
      · intro k' hk'
        refine hl.outer k' ?_
        rw [ho]
        exact List.mem_cons_of_mem _ hk'

theorem uniform_fetchFlowEntry : Uniform fetchFlowEntry := by
  intro r l t hl
  refine (uniform_dropKey r l t hl).bind ?_
  intro l hl
  exact follows_ok (fun _ => rfl) (hl.of_eq rfl rfl rfl)

theorem uniform_openHere (kind : TokenKind) : Uniform (openHere · kind) := by
  intro r l t hl
  have hflow : (l.keep t).inFlow = l.inFlow := rfl
  have hallowed : (l.keep t).keyAllowed = l.keyAllowed := rfl
  have hmark : (l.keep t).mark = l.mark := rfl
  have hindent : (l.keep t).indent = l.indent := rfl
  simp only [openHere, openBlock, hflow, hallowed, hmark, hindent]
  split
  · exact follows_ok (fun _ => rfl) hl
  · split
    · exact follows_error _
    · split
      · exact follows_ok (fun _ => rfl) (hl.of_eq rfl rfl rfl)
      · exact follows_ok (fun _ => rfl) hl

theorem uniform_fetchBlockEntry : Uniform fetchBlockEntry := by
  intro r l t hl
  refine (uniform_openHere .blockSequenceStart r l t hl).bind ?_
  intro l hl
  refine (uniform_dropKey r l t hl).bind ?_
  intro l hl
  exact follows_ok (fun _ => rfl) (hl.of_eq rfl rfl rfl)

theorem uniform_fetchKey : Uniform fetchKey := by
  intro r l t hl
  refine (uniform_openHere .blockMappingStart r l t hl).bind ?_
  intro l hl
  refine (uniform_dropKey r l t hl).bind ?_
  intro l hl
  exact follows_ok (fun _ => rfl) (hl.of_eq rfl rfl rfl)

/-- The start of a block that goes in before a token which is still held. -/
theorem Ahead.keep_openBlock (hl : l.Ahead r) (column : Nat) {number : Nat} (hn : r ≤ number)
    (t u : Token) :
    (0 < r → (l.keep t).openBlock column (·.insert number u) =
        (l.openBlock column (·.insert number u)).keep t) ∧
      (l.openBlock column (·.insert number u)).Ahead r := by
  have hflow : (l.keep t).inFlow = l.inFlow := rfl
  have hindent : (l.keep t).indent = l.indent := rfl
  rw [openBlock, openBlock, hflow, hindent]
  split
  · exact ⟨fun _ => rfl, hl⟩
  · split
    · have hblock : Ahead r { l with indent := column, indents := l.indent :: l.indents } :=
        hl.of_eq rfl rfl rfl
      exact ⟨fun hpos => hblock.keep_insert hpos hn t u, hblock.of_eq rfl rfl rfl⟩
    · exact ⟨fun _ => rfl, hl⟩

theorem uniform_fetchValue : Uniform fetchValue := by
  intro r l t hl
  have hpending : (l.keep t).pending = l.pending := rfl
  rw [fetchValue, fetchValue, hpending]
  cases hk : l.pending with
  | none =>
      refine (uniform_openHere .blockMappingStart r l t hl).bind ?_
      intro l hl
      exact follows_ok (fun _ => rfl) (hl.of_eq rfl rfl rfl)
  | some k =>
      have hn := hl.pending k hk
      have hinsert : (l.insert k.number ⟨.key, k.mark, k.mark⟩).Ahead r := hl.of_eq rfl rfl rfl
      obtain ⟨hopen, hahead⟩ := hinsert.keep_openBlock k.mark.column hn t
        ⟨.blockMappingStart, k.mark, k.mark⟩
      refine follows_ok ?_ ⟨hahead.released, (fun _ h => nomatch h), hahead.outer⟩
      intro hpos
      rw [hl.keep_insert hpos hn, hopen hpos]
      rfl

theorem uniform_fetchNode (scan : Cursor → Scan (TokenKind × Mark)) :
    Uniform (fetchNode · scan) := by
  intro r l t hl
  refine (uniform_saveKey r l t hl).bind ?_
  intro l hl
  have hcursor : (l.keep t).cursor = l.cursor := rfl
  rw [hcursor]
  cases scan l.cursor with
  | error m => exact follows_error m
  | ok r => exact follows_ok (fun _ => rfl) (hl.of_eq rfl rfl rfl)

theorem uniform_fetchBlock (literal : Bool) : Uniform (fetchBlock · literal) := by
  intro r l t hl
  refine (uniform_dropKey r l t hl).bind ?_
  intro l hl
  have hcursor : (l.keep t).cursor = l.cursor := rfl
  have hindent : (l.keep t).indent = l.indent := rfl
  rw [hcursor, hindent]
  cases block literal l.indent l.cursor with
  | error m => exact follows_error m
  | ok r => exact follows_ok (fun _ => rfl) (hl.of_eq rfl rfl rfl)

theorem uniform_fetchPlain : Uniform fetchPlain := by
  intro r l t hl
  refine (uniform_saveKey r l t hl).bind ?_
  intro l hl
  have hcursor : (l.keep t).cursor = l.cursor := rfl
  have hindent : (l.keep t).indent = l.indent := rfl
  have hflow : (l.keep t).inFlow = l.inFlow := rfl
  rw [hcursor, hindent, hflow]
  cases plain l.inFlow (l.indent + 1) l.cursor with
  | error m => exact follows_error m
  | ok r => exact follows_ok (fun _ => rfl) (hl.of_eq rfl rfl rfl)

theorem uniform_fetchAt (ch : Char) : Uniform (fetchAt · ch) := by
  intro r l t hl
  have hcursor : (l.keep t).cursor = l.cursor := rfl
  have hflow : (l.keep t).inFlow = l.inFlow := rfl
  have hmark : (l.keep t).mark = l.mark := rfl
  simp only [fetchAt, hcursor, hflow, hmark]
  refine (uniform_fetchOpening _ r l t hl).ite ((uniform_fetchOpening _ r l t hl).ite ?_)
  refine (uniform_fetchClosing _ r l t hl).ite ((uniform_fetchClosing _ r l t hl).ite ?_)
  refine (uniform_fetchFlowEntry r l t hl).ite ((uniform_fetchBlockEntry r l t hl).ite ?_)
  refine (uniform_fetchKey r l t hl).ite ((uniform_fetchValue r l t hl).ite ?_)
  refine (uniform_fetchNode _ r l t hl).ite ((uniform_fetchNode _ r l t hl).ite ?_)
  refine (uniform_fetchNode _ r l t hl).ite ?_
  refine (uniform_fetchBlock _ r l t hl).ite ((uniform_fetchBlock _ r l t hl).ite ?_)
  refine (uniform_fetchNode _ r l t hl).ite ((uniform_fetchNode _ r l t hl).ite ?_)
  exact (uniform_fetchPlain r l t hl).ite (follows_error _)

/-- Fetching takes no notice of tokens released before. -/
theorem uniform_fetch : Uniform fetch := by
  intro r l t hl
  have hlength : (l.keep t).cursor.rest.length = l.cursor.rest.length := rfl
  obtain ⟨hskip, hskipped⟩ := keep_skipSpace (l.cursor.rest.length + 1) hl t
  simp only [fetch, hlength, hskip]
  refine (uniform_dropStale r _ t hskipped).bind ?_
  intro l hl
  have hmark : (l.keep t).mark = l.mark := rfl
  obtain ⟨hunindent, hahead⟩ := keep_unindent l.mark.column hl t
  rw [hmark, hunindent]
  generalize l.unindent l.mark.column = l at hahead
  have hcursor : (l.keep t).cursor = l.cursor := rfl
  have hmark : (l.keep t).mark = l.mark := rfl
  rw [hcursor, hmark]
  cases l.cursor.peek with
  | none => exact uniform_fetchEnd r l t hahead
  | some ch =>
      refine (uniform_fetchDirective r l t hahead).ite ?_
      refine (uniform_fetchDocumentMark _ r l t hahead).ite ?_
      exact (uniform_fetchDocumentMark _ r l t hahead).ite (uniform_fetchAt ch r l t hahead)

/-! ### Stale keys -/

end Lexer

/-- Nothing of a stream is read twice on the way from one place to another. -/
def Mark.Before (m m' : Mark) : Prop := m.line ≤ m'.line ∧ m.index ≤ m'.index

theorem Mark.Before.trans {m m' m'' : Mark} (h : m.Before m') (h' : m'.Before m'') :
    m.Before m'' :=
  ⟨Nat.le_trans h.1 h'.1, Nat.le_trans h.2 h'.2⟩

/-- A key that was stale stays so. -/
theorem PendingKey.isStale_of_before {k : PendingKey} {m m' : Mark} (h : m.Before m')
    (hk : k.isStale m = true) : k.isStale m' = true := by
  have hline := h.1
  have hindex := h.2
  simp only [isStale, Bool.or_eq_true, decide_eq_true_eq] at hk ⊢
  omega

namespace Cursor

theorem before_skipWhile (c : Cursor) (p : Char → Bool) : c.mark.Before (c.skipWhile p).mark :=
  ⟨Nat.le_refl _, Nat.le_add_right _ _⟩

theorem before_lineBreak {c c' : Cursor} {ch : Char} (h : c.lineBreak? = some (ch, c')) :
    c.mark.Before c'.mark := by
  have hnew : ∀ n rest, c.mark.Before (c.newLine n rest).mark :=
    fun n rest => ⟨Nat.le_add_right _ _, Nat.le_add_right _ _⟩
  unfold lineBreak? at h
  split at h
  · obtain ⟨-, rfl⟩ := Prod.mk.inj (Option.some.inj h)
    exact hnew _ _
  · split at h
    · obtain ⟨-, rfl⟩ := Prod.mk.inj (Option.some.inj h)
      exact hnew _ _
    · split at h
      · obtain ⟨-, rfl⟩ := Prod.mk.inj (Option.some.inj h)
        exact hnew _ _
      · exact nomatch h
  · exact nomatch h

end Cursor

namespace Lexer

variable {r : Nat} {l l' : Lexer} {t : Token}

/-- What stands between tokens is passed over in the same way whatever keys are pending. -/
theorem skipSpace_eq (fuel : Nat) (l : Lexer) :
    ∃ c allowed, l.mark.Before c.mark ∧
      ∀ p o, o.isEmpty = l.outer.isEmpty →
        skipSpace fuel { l with pending := p, outer := o } =
          { l with cursor := c, keyAllowed := allowed, pending := p, outer := o } := by
  induction fuel generalizing l with
  | zero => exact ⟨l.cursor, l.keyAllowed, ⟨Nat.le_refl _, Nat.le_refl _⟩, fun _ _ _ => rfl⟩
  | succ fuel ih =>
      have hflow : ∀ p o, o.isEmpty = l.outer.isEmpty →
          inFlow { l with pending := p, outer := o } = l.inFlow := by
        intro p o ho
        simp only [inFlow, ho]
      generalize hb : (if l.cursor.mark.column == 0 && l.cursor.sees byteOrderMark then
        l.cursor.next else l.cursor) = b
      have hmark : l.mark.Before b.mark := by
        rw [← hb]
        split
        · exact ⟨Nat.le_refl _, Nat.le_add_right _ _⟩
        · exact ⟨Nat.le_refl _, Nat.le_refl _⟩
      generalize hs : (b.skipWhile fun ch =>
        ch == ' ' || ((l.inFlow || !l.keyAllowed) && ch == '\t')) = s
      have hspace : l.mark.Before s.mark := hs ▸ hmark.trans (b.before_skipWhile _)
      generalize hc : (if s.sees '#' then s.skipWhile fun ch => !isBreak ch else s) = c
      have hcomment : l.mark.Before c.mark := by
        rw [← hc]
        split
        · exact hspace.trans (s.before_skipWhile _)
        · exact hspace
      cases hbreak : c.lineBreak? with
      | none =>
          refine ⟨c, l.keyAllowed, hcomment, fun p o ho => ?_⟩
          simp only [skipSpace, hflow p o ho, hb, hs, hc, hbreak]
      | some r =>
          obtain ⟨ch, c'⟩ := r
          obtain ⟨c'', allowed, hnext, heq⟩ :=
            ih { l with cursor := c', keyAllowed := l.keyAllowed || !l.inFlow }
          refine ⟨c'', allowed,
            (hcomment.trans (Cursor.before_lineBreak hbreak)).trans hnext, fun p o ho => ?_⟩
          simp only [skipSpace, hflow p o ho, hb, hs, hc, hbreak]
          exact heq p o ho

/-- A pending key that is not stale at some place. -/
def fresh? (m : Mark) (k : Option PendingKey) : Option PendingKey :=
  if k.any (·.isStale m) then none else k

/-- Whether a required key is stale at some place. -/
def overdue (m : Mark) (k : Option PendingKey) : Bool := k.any fun k => k.isStale m && k.required

theorem dropStale_mk (c : Cursor) (held : List Token) (released : Nat) (indent : Int)
    (indents : List Int) (allowed : Bool) (p : Option PendingKey) (o : List (Option PendingKey)) :
    dropStale ⟨c, held, released, indent, indents, allowed, p, o⟩ =
      if o.any (overdue c.mark) || overdue c.mark p then .error c.mark
      else .ok ⟨c, held, released, indent, indents, allowed, fresh? c.mark p,
        o.map (fresh? c.mark)⟩ := rfl

theorem fresh?_fresh? {m m' : Mark} (h : m.Before m') (k : Option PendingKey) :
    fresh? m' (fresh? m k) = fresh? m' k := by
  cases k with
  | none => rfl
  | some k =>
      by_cases hk : k.isStale m = true
      · simp [fresh?, hk, PendingKey.isStale_of_before h hk]
      · simp [fresh?, hk]

/-- A key that was given up in time is never overdue. -/
theorem overdue_fresh? {m : Mark} {k : Option PendingKey} (hk : overdue m k = false)
    (m' : Mark) : overdue m' (fresh? m k) = overdue m' k := by
  cases k with
  | none => rfl
  | some k =>
      by_cases hstale : k.isStale m = true
      · have hnot : k.required = false := by simpa [overdue, hstale] using hk
        simp [overdue, fresh?, hstale, hnot]
      · simp [fresh?, hstale]

theorem overdue_of_before {m m' : Mark} (h : m.Before m') {k : Option PendingKey}
    (hk : overdue m' k = false) : overdue m k = false := by
  cases k with
  | none => rfl
  | some k =>
      by_cases hstale : k.isStale m = true
      · have hnot : k.required = false := by
          simpa [overdue, PendingKey.isStale_of_before h hstale] using hk
        simp [overdue, hnot]
      · simp [overdue, hstale]

/-- Giving up stale keys earlier than fetching does so itself makes no difference. -/
theorem fetch_of_dropStale (h : l.dropStale = .ok l') : l'.fetch = l.fetch := by
  obtain ⟨c₀, held, released, indent, indents, allowed₀, p, o⟩ := l
  rw [dropStale_mk] at h
  split at h
  · exact nomatch h
  · rename_i hdue
    obtain rfl := Except.ok.inj h
    simp only [Bool.or_eq_true, not_or, Bool.not_eq_true, List.any_eq_false] at hdue
    obtain ⟨c, allowed, hbefore, hskip⟩ := skipSpace_eq (c₀.rest.length + 1)
      ⟨c₀, held, released, indent, indents, allowed₀, p, o⟩
    replace hbefore : c₀.mark.Before c.mark := hbefore
    have hany : (o.map (fresh? c₀.mark)).any (overdue c.mark) = o.any (overdue c.mark) := by
      have hcongr : o.map (overdue c.mark ∘ fresh? c₀.mark) = o.map (overdue c.mark) :=
        List.map_congr_left fun k hk => overdue_fresh? (hdue.1 k hk) c.mark
      calc (o.map (fresh? c₀.mark)).any (overdue c.mark)
          = (o.map (overdue c.mark ∘ fresh? c₀.mark)).any id := by simp [List.any_map]
        _ = (o.map (overdue c.mark)).any id := by rw [hcongr]
        _ = o.any (overdue c.mark) := by simp [List.any_map]
    have hmap : (o.map (fresh? c₀.mark)).map (fresh? c.mark) = o.map (fresh? c.mark) := by
      rw [List.map_map]
      exact List.map_congr_left fun k _ => fresh?_fresh? hbefore k
    have hstale : (skipSpace (c₀.rest.length + 1) ⟨c₀, held, released, indent, indents, allowed₀,
          fresh? c₀.mark p, o.map (fresh? c₀.mark)⟩).dropStale =
        (skipSpace (c₀.rest.length + 1)
          ⟨c₀, held, released, indent, indents, allowed₀, p, o⟩).dropStale := by
      rw [hskip p o rfl, hskip (fresh? c₀.mark p) (o.map (fresh? c₀.mark)) (by simp),
        dropStale_mk, dropStale_mk, hany, hmap, overdue_fresh? hdue.2,
        fresh?_fresh? hbefore]
    rw [fetch, fetch, hstale]

/-- When a token can be fetched no required key is overdue. -/
theorem exists_dropStale_of_fetch (h : l.fetch = .ok l') : ∃ l₁, l.dropStale = .ok l₁ := by
  obtain ⟨c₀, held, released, indent, indents, allowed₀, p, o⟩ := l
  obtain ⟨c, allowed, hbefore, hskip⟩ := skipSpace_eq (c₀.rest.length + 1)
    ⟨c₀, held, released, indent, indents, allowed₀, p, o⟩
  replace hbefore : c₀.mark.Before c.mark := hbefore
  rw [fetch, hskip p o rfl, dropStale_mk] at h
  rw [dropStale_mk]
  by_cases hdue : (o.any (overdue c.mark) || overdue c.mark p) = true
  · rw [if_pos hdue] at h
    exact nomatch h
  · simp only [Bool.or_eq_true, not_or, Bool.not_eq_true, List.any_eq_false] at hdue
    refine ⟨_, if_neg ?_⟩
    simp only [Bool.or_eq_true, not_or, Bool.not_eq_true, List.any_eq_false]
    exact ⟨fun k hk => overdue_of_before hbefore (hdue.1 k hk), overdue_of_before hbefore hdue.2⟩

/-! ### Release -/

/-- Fetches some tokens without releasing any. -/
def fetchTimes : (n : Nat) → Lexer → Except Mark Lexer
  | 0, l => .ok l
  | n + 1, l =>
      match l.fetch with
      | .error m => .error m
      | .ok l => fetchTimes n l

theorem uniform_fetchTimes (n : Nat) : Uniform (fetchTimes n) := by
  induction n with
  | zero => exact fun r l t hl => follows_ok (fun _ => rfl) hl
  | succ n ih =>
      intro r l t hl
      exact (uniform_fetch r l t hl).bind fun l hl => ih r l t hl

/-- A stream is over when its end was fetched and no key is pending. -/
structure Done (l : Lexer) : Prop where
  pending : l.pending = none
  outer : l.outer = []
  ends : ∃ ts t, l.held = ts ++ [t] ∧ t.kind = .streamEnd ∧ ∀ u ∈ ts, u.kind ≠ .streamEnd

/-- The first token that is held may go when no pending key begins with it. -/
theorem Ahead.release (hl : l.Ahead r) {held : List Token} (hheld : l.held = t :: held)
    (hfirst : l.holdsFirst = false) :
    ∃ l₁ : Lexer, l₁ = { l with held := held, released := l.released + 1 } ∧
      l₁.Ahead (r + 1) ∧ l = l₁.keep t := by
  have hreleased := hl.released
  simp only [holdsFirst, Bool.or_eq_false_iff, List.any_eq_false] at hfirst
  refine ⟨_, rfl, ⟨?_, ?_, ?_⟩, ?_⟩
  · exact congrArg (· + 1) hreleased
  · intro k hk
    have hle := hl.pending k hk
    have hne : k.number ≠ l.released := by
      have hno := hfirst.1
      rw [hk] at hno
      simpa using hno
    omega
  · intro k hk
    have hle := hl.outer k hk
    have hne : k.number ≠ l.released := by simpa using hfirst.2 _ hk
    omega
  · simp [keep, ← hheld]

/-- After the first token has gone, what is fetched is as if it were still there. -/
theorem Ahead.fetchTimes_release (hl : l.Ahead r) {held : List Token} (hheld : l.held = t :: held)
    (hfirst : l.holdsFirst = false) {n : Nat} (h : fetchTimes n l = .ok l') :
    ∃ l₁ l₁' : Lexer, l₁ = { l with held := held, released := l.released + 1 } ∧
      l₁.Ahead (r + 1) ∧ fetchTimes n l₁ = .ok l₁' ∧ l' = l₁'.keep t := by
  obtain ⟨l₁, heq, hl₁, hkeep⟩ := hl.release hheld hfirst
  have hrest := (uniform_fetchTimes n (r + 1) l₁ t hl₁).eq (Nat.succ_pos r)
  rw [← hkeep, h] at hrest
  cases h₁ : fetchTimes n l₁ with
  | error m =>
      rw [h₁] at hrest
      exact nomatch hrest
  | ok l₁' =>
      rw [h₁] at hrest
      exact ⟨l₁, l₁', heq, hl₁, h₁, Except.ok.inj hrest⟩

/-- A stream is over with a token in front if it ends with this token, or is over without it. -/
theorem Done.of_keep (h : (l.keep t).Done) :
    t.kind = .streamEnd ∧ l.held = [] ∨ t.kind ≠ .streamEnd ∧ l.Done := by
  obtain ⟨ts, last, hlast, hkind, hts⟩ := h.ends
  replace hlast : t :: l.held = ts ++ [last] := hlast
  cases ts with
  | nil =>
      obtain ⟨rfl, hnil⟩ := List.cons.inj hlast
      exact .inl ⟨hkind, hnil⟩
  | cons u ts =>
      obtain ⟨rfl, htail⟩ := List.cons.inj hlast
      refine .inr ⟨hts t (by simp), h.pending, h.outer, ts, last, htail, hkind, ?_⟩
      intro u hu
      exact hts u (List.mem_cons_of_mem _ hu)

/-- A fetch is left when the stream is not over. -/
theorem exists_fetch {n : Nat} (hl : l.Ahead r) (h : fetchTimes n l = .ok l')
    (hn : l.Done → False) (hdone : l'.Done) :
    ∃ m l₁, n = m + 1 ∧ l.fetch = .ok l₁ ∧ l₁.Ahead r ∧ fetchTimes m l₁ = .ok l' := by
  cases n with
  | zero =>
      obtain rfl := Except.ok.inj h
      exact (hn hdone).elim
  | succ n =>
      rw [fetchTimes] at h
      cases hf : l.fetch with
      | error m =>
          rw [hf] at h
          exact nomatch h
      | ok l₁ =>
          rw [hf] at h
          exact ⟨n, l₁, rfl, rfl, (uniform_fetch r l ⟨.key, l.mark, l.mark⟩ hl).ahead l₁ hf, h⟩

/-- Stale keys may be given up before the rest is fetched. -/
theorem exists_dropStale_of_fetchTimes {n : Nat} (hl : l.Ahead r) (h : fetchTimes n l = .ok l')
    (hdone : l'.Done) :
    ∃ l₁, l.dropStale = .ok l₁ ∧ l₁.Ahead r ∧ l₁.held = l.held ∧ fetchTimes n l₁ = .ok l' := by
  have hheld : ∀ l₁, l.dropStale = .ok l₁ → l₁.held = l.held := by
    intro l₁ h₁
    obtain ⟨c, held, released, indent, indents, allowed, p, o⟩ := l
    rw [dropStale_mk] at h₁
    split at h₁
    · exact nomatch h₁
    · obtain rfl := Except.ok.inj h₁
      rfl
  by_cases hover : l.Done
  · have hsame : l.dropStale = .ok l := by
      obtain ⟨c, held, released, indent, indents, allowed, p, o⟩ := l
      obtain ⟨rfl, rfl, -⟩ := hover
      rfl
    exact ⟨l, hsame, hl, rfl, h⟩
  · obtain ⟨m, l₂, rfl, hf, -, -⟩ := exists_fetch hl h hover hdone
    obtain ⟨l₁, h₁⟩ := exists_dropStale_of_fetch hf
    refine ⟨l₁, h₁, (uniform_dropStale r l ⟨.key, l.mark, l.mark⟩ hl).ahead l₁ h₁,
      hheld l₁ h₁, ?_⟩
    rw [fetchTimes, fetch_of_dropStale h₁]
    exact h

/-- **What is released is what would be held** if every token were kept until the end of the stream
was fetched. -/
theorem run_of_fetchTimes {n fuel : Nat} (hl : l.Ahead r) (h : fetchTimes n l = .ok l')
    (hdone : l'.Done) (hfuel : n + l'.held.length ≤ fuel) : run fuel l = (l'.held, none) := by
  induction fuel generalizing r n l l' with
  | zero =>
      obtain ⟨ts, last, hlast, -⟩ := hdone.ends
      rw [hlast, List.length_append, List.length_singleton] at hfuel
      omega
  | succ fuel ih =>
      cases hheld : l.held with
      | nil =>
          have hmore : l.Done → False := by
            rintro ⟨-, -, ts, last, hlast, -⟩
            rw [hheld] at hlast
            simp at hlast
          obtain ⟨m, l₁, rfl, hf, hl₁, hrest⟩ := exists_fetch hl h hmore hdone
          simp only [run, hheld, hf]
          exact ih hl₁ hrest hdone (by omega)
      | cons t held =>
          obtain ⟨l₁, hstale, hl₁, hheld₁, h₁⟩ := exists_dropStale_of_fetchTimes hl h hdone
          rw [hheld] at hheld₁
          simp only [run, hheld, hstale]
          cases hfirst : l₁.holdsFirst with
          | true =>
              have hmore : l₁.Done → False := by
                rintro ⟨hp, ho, -⟩
                simp [holdsFirst, hp, ho] at hfirst
              obtain ⟨m, l₂, rfl, hf, hl₂, hrest⟩ := exists_fetch hl₁ h₁ hmore hdone
              simp only [hf, if_true]
              exact ih hl₂ hrest hdone (by omega)
          | false =>
              obtain ⟨l₂, l₂', heq₂, hl₂, h₂, rfl⟩ := hl₁.fetchTimes_release hheld₁ hfirst h₁
              replace hfuel : n + (l₂'.held.length + 1) ≤ fuel + 1 := hfuel
              rcases hdone.of_keep with ⟨hkind, hnil⟩ | ⟨hkind, hdone₂⟩
              · simp [hkind, keep, hnil]
              · have hrun := ih hl₂ h₂ hdone₂ (by omega)
                rw [heq₂] at hrun
                simp [hkind, hrun, keep]

theorem fetchTimes_add (a b : Nat) (l : Lexer) :
    fetchTimes (a + b) l =
      match fetchTimes a l with
      | .error m => .error m
      | .ok l => fetchTimes b l := by
  induction a generalizing l with
  | zero =>
      rw [Nat.zero_add]
      rfl
  | succ a ih =>
      rw [show a + 1 + b = (a + b) + 1 by omega]
      simp only [fetchTimes]
      cases l.fetch with
      | error m => rfl
      | ok l => exact ih l

/-- Some tokens are fetched and then some more. -/
theorem fetchTimes_trans {a b : Nat} {l l₁ l₂ : Lexer} (h : fetchTimes a l = .ok l₁)
    (h' : fetchTimes b l₁ = .ok l₂) : fetchTimes (a + b) l = .ok l₂ := by
  rw [fetchTimes_add, h]
  exact h'

theorem fetchTimes_one {l l₁ : Lexer} (h : l.fetch = .ok l₁) : fetchTimes 1 l = .ok l₁ := by
  simp only [fetchTimes, h]

end Lexer

/-- The tokens of a stream are those that are held when its end was fetched. -/
theorem tokens_of_fetchTimes {cs : List Char} {n : Nat} {l : Lexer}
    (h : Lexer.fetchTimes n (.start cs) = .ok l) (hdone : l.Done)
    (hfuel : n + l.held.length ≤ 8 * cs.length + 8) : tokens cs = (l.held, none) := by
  have hstart : (Lexer.start cs).Ahead 0 := ⟨rfl, (fun _ _ => Nat.zero_le _), fun _ _ => Nat.zero_le _⟩
  exact Lexer.run_of_fetchTimes hstart h hdone hfuel

end Yaml

end SecretResolver
