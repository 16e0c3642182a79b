/-
**Plain scalars are read back.**

A plain scalar is read word by word.  Within one line the gaps between words are spaces and stay as
they are, so what is read is the text itself, up to the colon after a key or to the end of the line.

Main definitions:

* `PlainRun` — a text of one line that can go on as a plain scalar;
* `plainAfter` — what is read of a plain scalar after one of its words.

Main results:

* `plainWord_word`, `plainWords_run` — a word and a whole line are read back;
* `plain_key`, `plain_line` — **a plain scalar is read back** before a colon and on its own line.
-/

import SecretResolver.Proofs.Yaml.Quoted

set_option relaxedAutoImplicit false
set_option autoImplicit false

namespace SecretResolver

namespace Yaml

variable {m stop : Mark} {indent : Int} {cs rest w : List Char}

/-! ### Words -/

/-- The end of a stream, a separator, or a colon before one of these. -/
def EndsPlain : List Char → Prop
  | [] => True
  | c :: cs => isSpace c = true ∨ c = ':' ∧ separatorAhead cs = true

/-- A word is read back up to what ends it. -/
theorem plainWord_word (hw : ∀ c ∈ w, isSpace c = false) (htied : Tied w) (hend : EndsPlain rest)
    (m : Mark) {fuel : Nat} (hfuel : w.length < fuel) :
    plainWord false fuel ⟨w ++ rest, m⟩ = .ok (w, ⟨rest, m.after w⟩) := by
  induction w generalizing m fuel with
  | nil =>
      obtain ⟨fuel, rfl⟩ : ∃ n, fuel = n + 1 := ⟨fuel - 1, by omega⟩
      cases rest with
      | nil => rfl
      | cons c rest =>
          rw [List.nil_append, plainWord, Cursor.peek_cons]
          rcases hend with hs | ⟨rfl, hahead⟩
          · simp [hs]
          · have hafter : (⟨':' :: rest, m⟩ : Cursor).next.atSpaceOrEnd = true := hahead
            simp [hafter]
  | cons c w ih =>
      rw [List.length_cons] at hfuel
      obtain ⟨fuel, rfl⟩ : ∃ n, fuel = n + 1 := ⟨fuel - 1, by omega⟩
      have hs := hw c (by simp)
      have hnext : (⟨c :: (w ++ rest), m⟩ : Cursor).next = ⟨w ++ rest, m.step c⟩ :=
        Cursor.next_cons (isBreak_of_not_isSpace hs) _ m
      have hcolon : (c == ':' && (⟨w ++ rest, m.step c⟩ : Cursor).atSpaceOrEnd) = false := by
        rw [Bool.and_eq_false_iff, beq_eq_false_iff_ne]
        by_cases hc : c = ':'
        · obtain ⟨d, hd, hds⟩ := htied.1 hc
          cases w with
          | nil => exact absurd hd (by simp)
          | cons e w =>
              obtain rfl : e = d := by simpa using hd
              exact .inr (by simp [Cursor.atSpaceOrEnd, hds])
        · exact .inl hc
      have hrec : plainWord false fuel ⟨w ++ rest, m.step c⟩ =
          .ok (w, ⟨rest, (m.step c).after w⟩) :=
        ih (fun d hd => hw d (by simp [hd])) htied.2 (m.step c) (by omega)
      simp only [List.cons_append, plainWord, Cursor.peek_cons, hs, hnext, hcolon, hrec]
      rfl

/-- A colon at the end of a word would be followed by a separator. -/
theorem Tied.left {ds : List Char} (h : Tied (cs ++ ds))
    (hds : ∀ c ∈ ds.head?, isSpace c = true) : Tied cs := by
  induction cs with
  | nil => trivial
  | cons c cs ih =>
      refine ⟨?_, ih h.2⟩
      intro hc
      obtain ⟨d, hd, hs⟩ := h.1 hc
      cases cs with
      | nil =>
          rw [hds d hd] at hs
          exact nomatch hs
      | cons e cs => exact ⟨d, hd, hs⟩

theorem Tied.right {ds : List Char} (h : Tied (cs ++ ds)) : Tied ds := by
  induction cs with
  | nil => exact h
  | cons c cs ih => exact ih h.2

/-! ### Lines -/

/-- A plain scalar with more text in front. -/
def further (t : List Char) : Scan Plain → Scan Plain
  | .error m => .error m
  | .ok (p, c) => .ok (⟨t ++ p.text, p.stop, p.broken⟩, c)

/-- What is read of a plain scalar after one of its words. -/
def plainAfter (indent : Int) (fuel : Nat) (c : Cursor) : Scan Plain :=
  if !c.at_ isSpace then .ok (⟨[], c.mark, false⟩, c)
  else
    match Gap.scan indent (c.rest.length + 1) .none c with
    | .error m => .error m
    | .ok (gap, after) =>
        if (after.mark.column : Int) < indent then .ok (⟨[], c.mark, gap.broken⟩, after)
        else plainWords false indent fuel gap c.mark after

/-- A plain scalar is one word and what comes after it. -/
theorem plainWords_of_word (hw : ∀ c ∈ w, isSpace c = false) (htied : Tied w)
    (hfirst : ∃ c ∈ w.head?, c ≠ '#') (hend : EndsPlain rest)
    (hdoc : (⟨w ++ rest, m⟩ : Cursor).atDocumentMark = false) (fuel : Nat) (gap : Gap)
    (stop : Mark) :
    plainWords false indent (fuel + 1) gap stop ⟨w ++ rest, m⟩ =
      further (gap.text ++ w) (plainAfter indent fuel ⟨rest, m.after w⟩) := by
  obtain ⟨c, hc, hhash⟩ := hfirst
  have hword : plainWord false ((w ++ rest).length + 1) ⟨w ++ rest, m⟩ =
      .ok (w, ⟨rest, m.after w⟩) := by
    refine plainWord_word hw htied hend m ?_
    rw [List.length_append]
    omega
  have hsees : (⟨w ++ rest, m⟩ : Cursor).sees '#' = false := by
    cases w with
    | nil => exact nomatch hc
    | cons d w =>
        obtain rfl : d = c := by simpa using hc
        simpa [Cursor.sees] using hhash
  have hempty : w.isEmpty = false := by
    cases w with
    | nil => exact nomatch hc
    | cons d w => rfl
  simp only [plainWords, plainAfter, hdoc, hsees, hword, hempty]
  cases hspace : (⟨rest, m.after w⟩ : Cursor).at_ isSpace with
  | false => simp [further]
  | true =>
      simp only [Bool.not_true, Bool.not_false, Bool.false_eq_true, if_false, Bool.false_or,
        Bool.true_and, decide_eq_true_eq]
      cases Gap.scan indent (rest.length + 1) .none ⟨rest, m.after w⟩ with
      | error m => rfl
      | ok r =>
          obtain ⟨g, c⟩ := r
          dsimp only
          split
          · simp [further]
          · rfl

/-- A text of one line that can go on as a plain scalar. -/
structure PlainRun (cs : List Char) : Prop where
  shown : ∀ c ∈ cs, isShown c = true
  line : ∀ c ∈ cs, isBreak c = false
  comment : cs.IsChain NoComment
  tied : Tied cs
  ends : cs.getLast? ≠ some ' '
  begins : ∃ c ∈ cs.head?, isSpace c = false ∧ c ≠ '#'

theorem PlainText.run (h : PlainText cs) : PlainRun cs := by
  obtain ⟨hshown, hline, hcomment, htied, hends, c, ds, rfl, hspace, hfirst, -⟩ := h
  refine ⟨hshown, hline, hcomment, htied, hends, c, rfl, ?_, ?_⟩
  · rw [← Bool.not_eq_true, isSpace_iff_of_shown (hshown c (by simp)), hline c (by simp)]
    simp [hspace]
  · rintro rfl
    revert hfirst
    cases separatorAhead ds <;> decide

/-- The text begins with a word that is no comment. -/
theorem PlainRun.first {g ds : List Char} (h : PlainRun (w ++ g ++ ds))
    (hg : ∀ c ∈ g, isSpace c = true) (hempty : g = [] → ds = []) : ∃ c ∈ w.head?, c ≠ '#' := by
  obtain ⟨c, hc, hs, hhash⟩ := h.begins
  cases w with
  | cons d w => exact ⟨c, hc, hhash⟩
  | nil =>
      cases g with
      | nil =>
          obtain rfl := hempty rfl
          exact nomatch hc
      | cons d g =>
          obtain rfl : d = c := by simpa using hc
          rw [hg d (by simp)] at hs
          exact nomatch hs

/-- A word ends at the spaces after it. -/
theorem PlainRun.left {g ds : List Char} (h : PlainRun (w ++ g ++ ds))
    (hg : ∀ c ∈ g, isSpace c = true) (hne : g ≠ []) (more : List Char) :
    Tied w ∧ EndsPlain (g ++ more) := by
  obtain ⟨c, g, rfl⟩ := List.exists_cons_of_ne_nil hne
  have hc : isSpace c = true := hg c (by simp)
  refine ⟨?_, .inl hc⟩
  have htied := h.tied
  rw [List.append_assoc] at htied
  refine htied.left ?_
  rintro d ⟨⟩
  exact hc

/-- After a word and some spaces the text goes on. -/
theorem PlainRun.right {g ds : List Char} (h : PlainRun (w ++ g ++ ds))
    (hg : ∀ c ∈ g, isSpace c = true) (hne : g ≠ []) (hds : ∀ c ∈ ds.head?, isSpace c = false) :
    (∀ c ∈ g, c = ' ') ∧ PlainRun ds := by
  have hspaces : ∀ c ∈ g, c = ' ' := by
    intro c hc
    rcases (isSpace_iff_of_shown (h.shown c (by simp [hc]))).1 (hg c hc) with hc' | hb
    · exact hc'
    · rw [h.line c (by simp [hc])] at hb
      exact nomatch hb
  have hlast : (w ++ g).getLast? = some ' ' := by
    rw [List.getLast?_append_of_ne_nil _ hne, List.getLast?_eq_some_getLast hne,
      hspaces _ (List.getLast_mem hne)]
  refine ⟨hspaces, ?_⟩
  cases ds with
  | nil =>
      have hends := h.ends
      rw [List.append_nil, hlast] at hends
      exact absurd rfl hends
  | cons c ds =>
      have hcomment := h.comment
      rw [List.isChain_append] at hcomment
      have hhash : c ≠ '#' := hcomment.2.2 ' ' hlast c rfl rfl
      have hends := h.ends
      rw [List.getLast?_append_of_ne_nil _ (List.cons_ne_nil c ds)] at hends
      exact ⟨fun d hd => h.shown d (List.mem_append_right _ hd),
        fun d hd => h.line d (List.mem_append_right _ hd), hcomment.2.1, h.tied.right, hends,
        c, rfl, hds c rfl, hhash⟩

/-- After some spaces the next word is read, since they lead past the indentation. -/
theorem plainAfter_spaces {g : List Char} (hg : ∀ c ∈ g, c = ' ') (hne : g ≠ [])
    (hrest : ∀ c ∈ rest.head?, isSpace c = false) (hindent : indent ≤ m.column + 1) (fuel : Nat) :
    plainAfter indent fuel ⟨g ++ rest, m⟩ =
      plainWords false indent fuel ⟨g, none, [], false⟩ m ⟨rest, m.after g⟩ := by
  have hshown : ∀ c ∈ g, isShown c = true ∧ isSpace c = true := by
    intro c hc
    rw [hg c hc]
    exact ⟨rfl, rfl⟩
  have hline : ∀ c ∈ g, isBreak c = false := by
    intro c hc
    rw [hg c hc]
    rfl
  have hspace : (⟨g ++ rest, m⟩ : Cursor).at_ isSpace = true := by
    obtain ⟨c, g, rfl⟩ := List.exists_cons_of_ne_nil hne
    exact (hshown c (by simp)).2
  have hscan : Gap.scan indent ((g ++ rest).length + 1) .none ⟨g ++ rest, m⟩ =
      .ok (⟨g, none, [], false⟩, ⟨rest, m.after g⟩) := by
    rw [Gap.scan_append indent hshown hrest .none m (by rw [List.length_append]; omega),
      Gap.foldl_spaces hg .none rfl]
    rfl
  have hcolumn : ¬((m.after g).column : Int) < indent := by
    have hpos : 0 < g.length := List.length_pos_of_ne_nil hne
    rw [Mark.column_after_of_line hline]
    omega
  simp only [plainAfter, hspace, hscan, hcolumn]
  rfl

theorem further_further (s t : List Char) (r : Scan Plain) :
    further s (further t r) = further (s ++ t) r := by
  cases r with
  | error m => rfl
  | ok p => simp [further]

/-- **A line is read back** up to what ends a plain scalar. -/
theorem plainWords_run (h : PlainRun cs) (hend : EndsPlain rest)
    (hdoc : (⟨cs ++ rest, m⟩ : Cursor).atDocumentMark = false) (hindent : indent ≤ m.column + 1)
    {fuel : Nat} (hfuel : cs.length + 1 < fuel) (gap : Gap) (stop : Mark) :
    ∃ fuel' > 0, plainWords false indent fuel gap stop ⟨cs ++ rest, m⟩ =
      further (gap.text ++ cs) (plainAfter indent fuel' ⟨rest, m.after cs⟩) := by
  induction hn : cs.length using Nat.strong_induction_on generalizing cs m fuel gap stop with
  | _ n ih =>
      subst hn
      obtain ⟨fuel, rfl⟩ : ∃ n, fuel = n + 1 := ⟨fuel - 1, by omega⟩
      obtain ⟨w, g, ds, rfl, hw, hg, hds, hempty⟩ := exists_parts isSpace cs
      have hfirst := h.first hg hempty
      by_cases hne : g = []
      · obtain rfl := hempty hne
        subst hne
        have htied : Tied w := by simpa using h.tied
        simp only [List.append_nil] at hfuel hdoc ⊢
        exact ⟨fuel, by omega, plainWords_of_word hw htied hfirst hend hdoc fuel gap stop⟩
      · obtain ⟨hspaces, hright⟩ := h.right hg hne hds
        have hwline : ∀ c ∈ w, isBreak c = false := fun c hc => isBreak_of_not_isSpace (hw c hc)
        obtain ⟨htied, hgap⟩ := h.left hg hne (ds ++ rest)
        have hhead : ∀ c ∈ (ds ++ rest).head?, isSpace c = false := by
          obtain ⟨c, hc, -⟩ := hright.begins
          cases ds with
          | nil => exact nomatch hc
          | cons d ds => exact hds
        have hgline : ∀ c ∈ g, isBreak c = false := fun c hc => by rw [hspaces c hc]; rfl
        have hpos : 0 < g.length := List.length_pos_of_ne_nil hne
        have hcolumn : (m.after w).column = m.column + w.length := Mark.column_after_of_line hwline m
        have hcolumn' : ((m.after w).after g).column = m.column + w.length + g.length := by
          rw [Mark.column_after_of_line hgline, hcolumn]
        have hdoc' : (⟨ds ++ rest, (m.after w).after g⟩ : Cursor).atDocumentMark = false :=
          Cursor.atDocumentMark_of_column (by dsimp only; omega)
        have hlength : ds.length < (w ++ g ++ ds).length ∧ ds.length + 1 < fuel := by
          simp only [List.length_append] at hfuel ⊢
          omega
        obtain ⟨fuel', hpos, hrest⟩ := ih ds.length hlength.1 hright hdoc' (by omega) hlength.2
          ⟨g, none, [], false⟩ (m.after w) rfl
        refine ⟨fuel', hpos, ?_⟩
        simp only [List.append_assoc] at hdoc ⊢
        rw [plainWords_of_word hw htied hfirst hgap hdoc,
          plainAfter_spaces hspaces hne hhead (by omega), hrest, further_further]
        simp [Gap.text, Mark.after_append]

/-! ### Ends -/

/-- A plain scalar of one line is that line and what comes after it. -/
theorem plain_of_text {c : Char} (h : PlainText cs) (hend : EndsPlain (c :: rest))
    (hdoc : (⟨cs ++ c :: rest, m⟩ : Cursor).atDocumentMark = false)
    (hindent : indent ≤ m.column + 1) :
    ∃ fuel > 0, plain false indent ⟨cs ++ c :: rest, m⟩ =
      further cs (plainAfter indent fuel ⟨c :: rest, m.after cs⟩) := by
  have hfuel : cs.length + 1 < (cs ++ c :: rest).length + 1 := by
    rw [List.length_append, List.length_cons]
    omega
  exact plainWords_run h.run hend hdoc hindent hfuel .none m

/-- **A plain key is read back** before its colon. -/
theorem plain_key (h : PlainText cs)
    (hdoc : (⟨cs ++ ':' :: ' ' :: rest, m⟩ : Cursor).atDocumentMark = false)
    (hindent : indent ≤ m.column + 1) :
    plain false indent ⟨cs ++ ':' :: ' ' :: rest, m⟩ =
      .ok (⟨cs, m.after cs, false⟩, ⟨':' :: ' ' :: rest, m.after cs⟩) := by
  have hend : EndsPlain (':' :: ' ' :: rest) := Or.inr ⟨rfl, rfl⟩
  obtain ⟨fuel, -, hread⟩ := plain_of_text h hend hdoc hindent
  have hcolon : (⟨':' :: ' ' :: rest, m.after cs⟩ : Cursor).at_ isSpace = false := rfl
  rw [hread, plainAfter, hcolon]
  simp [further]

/-- **A plain scalar is read back** before the line that ends it. -/
theorem plain_line (h : PlainText cs)
    (hdoc : (⟨cs ++ '\n' :: rest, m⟩ : Cursor).atDocumentMark = false)
    (hindent : indent ≤ m.column + 1) (hrest : ∀ c ∈ rest.head?, isSpace c = false)
    (hnext : 0 < indent ∨ rest = []) :
    plain false indent ⟨cs ++ '\n' :: rest, m⟩ =
      .ok (⟨cs, m.after cs, true⟩, ⟨rest, m.after (cs ++ ['\n'])⟩) := by
  have hend : EndsPlain ('\n' :: rest) := Or.inl rfl
  obtain ⟨fuel, hpos, hread⟩ := plain_of_text h hend hdoc hindent
  have hspace : (⟨'\n' :: rest, m.after cs⟩ : Cursor).at_ isSpace = true := rfl
  have hscan : Gap.scan indent (('\n' :: rest).length + 1) .none ⟨'\n' :: rest, m.after cs⟩ =
      .ok (⟨[], some '\n', [], true⟩, ⟨rest, m.after (cs ++ ['\n'])⟩) := by
    have hfeed : ∀ c ∈ ['\n'], isShown c = true ∧ isSpace c = true := by
      intro c hc
      rw [List.mem_singleton.1 hc]
      exact ⟨rfl, rfl⟩
    rw [Mark.after_append]
    exact Gap.scan_append indent hfeed hrest .none _ (by simp)
  have hcolumn : (m.after (cs ++ ['\n'])).column = 0 := by
    rw [Mark.after_append, Mark.after_cons, Mark.step_of_break rfl]
    rfl
  rw [hread, plainAfter, hspace]
  simp only [hscan, hcolumn]
  by_cases hi : 0 < indent
  · simp [hi, further]
  · -- nothing follows, and so the scalar has no more words
    obtain rfl := hnext.resolve_left hi
    obtain ⟨fuel, rfl⟩ : ∃ n, fuel = n + 1 := ⟨fuel - 1, by omega⟩
    simp [hi, plainWords, plainWord, Cursor.atDocumentMark, Cursor.isRule, Cursor.sees,
      Cursor.at_, further]

end Yaml

end SecretResolver
