/-
**Block scalars are read back.**

A text that is written line by line stands two columns deep, and its lines are read one by one, each
with the breaks after it.  What is to happen to the last breaks is chosen so that the text comes
back: none of them count if the last line of the text is not ended, one if a line ends there, and
all of them if there are more.

Main definitions:

* `Opens` — what may stand at the start of a line after a block scalar was begun;
* `blockHeaderOf` — what the first line of a block scalar says about a text.

Main results:

* `emptyLines_opens`, `blockLines_text` — the breaks between lines and the lines are read back;
* `block_writeLiteral` — **a block scalar is read back**.
-/

import SecretResolver.Proofs.Yaml.Quoted

set_option relaxedAutoImplicit false
set_option autoImplicit false

namespace SecretResolver

namespace Yaml

variable {m : Mark} {cs ds rest : List Char}

/-! ### Places -/

theorem Mark.column_after_break {b : Char} (hb : isBreak b = true) (m : Mark) (cs : List Char) :
    (m.after (cs ++ [b])).column = 0 := by
  rw [after_append, after_cons, step_of_break hb]
  rfl

theorem Mark.column_after_breaks {bs : List Char} (hbs : ∀ c ∈ bs, isBreak c = true)
    (hm : m.column = 0) : (m.after bs).column = 0 := by
  rcases List.eq_nil_or_concat bs with rfl | ⟨bs, b, rfl⟩
  · exact hm
  · rw [List.concat_eq_append]
    exact column_after_break (hbs b (by simp)) m bs

/-- After a line and the breaks that end it a line begins. -/
theorem Mark.column_after_line {w bs : List Char} {b : Char} (hb : isBreak b = true)
    (hbs : ∀ c ∈ bs, isBreak c = true) (m : Mark) : (m.after (w ++ b :: bs)).column = 0 := by
  rw [← List.concat_append, List.concat_eq_append, after_append]
  exact column_after_breaks hbs (column_after_break hb m w)

/-! ### Empty lines -/

/-- What may stand at the start of a line: the indentation of a line that is not empty, or what
comes after the scalar. -/
def Opens (start rest : List Char) : Prop :=
  start = indentation ∧ (∀ c ∈ rest.head?, isBreak c = false) ∨
    start = [] ∧ ∀ c ∈ rest.head?, isSpace c = false

/-- One line is opened. -/
theorem emptyLines_succ {c c' : Cursor} (fuel : Nat) (e : EmptyLines)
    (hskip : c.skip (min (c.takeWhile (· == ' ')).1.length (2 - c.mark.column)) = c')
    (htab : c'.sees '\t' = false) :
    emptyLines (some 2) (fuel + 1) e c =
      match c'.lineBreak? with
      | none => .ok ({ e with deepest := max e.deepest c'.mark.column }, c')
      | some (ch, c) =>
          emptyLines (some 2) fuel
            ⟨e.breaks ++ [ch], c.mark, max e.deepest c'.mark.column⟩ c := by
  cases hbreak : c'.lineBreak? with
  | none => simp [emptyLines, hskip, htab, hbreak]
  | some r => simp [emptyLines, hskip, htab, hbreak]

/-- Where no space stands nothing is skipped. -/
theorem skip_of_no_space (hcs : ∀ c ∈ cs.head?, c ≠ ' ') (m : Mark) (n : Nat) :
    (⟨cs, m⟩ : Cursor).skip (min ((⟨cs, m⟩ : Cursor).takeWhile (· == ' ')).1.length n) = ⟨cs, m⟩ := by
  have hwidth : ((⟨cs, m⟩ : Cursor).takeWhile (· == ' ')).1.length = 0 := by
    cases cs with
    | nil => rfl
    | cons c cs =>
        have hc : (c == ' ') = false := by simpa using hcs c rfl
        simp [Cursor.takeWhile, hc]
  rw [hwidth, Nat.zero_min]
  rfl

theorem skip_indentation (hm : m.column = 0) (rest : List Char) :
    (⟨indentation ++ rest, m⟩ : Cursor).skip
        (min ((⟨indentation ++ rest, m⟩ : Cursor).takeWhile (· == ' ')).1.length (2 - m.column)) =
      ⟨rest, m.after indentation⟩ := by
  have hwidth : ((⟨indentation ++ rest, m⟩ : Cursor).takeWhile (· == ' ')).1.length =
      (rest.takeWhile (· == ' ')).length + 2 := by
    simp [Cursor.takeWhile, indentation]
  have hmin : min ((rest.takeWhile (· == ' ')).length + 2) (2 - m.column) = indentation.length := by
    rw [hm]
    simp [indentation]
  rw [hwidth, hmin]
  exact Cursor.skip_append isBreak_of_mem_indentation rest m

/-- Empty lines are passed over, and the indentation of the line after them. -/
theorem emptyLines_opens {start bs : List Char} (h : Opens start rest)
    (hbs : ∀ c ∈ bs, isShown c = true ∧ isBreak c = true) (hm : m.column = 0) (e : EmptyLines)
    {fuel : Nat} (hfuel : bs.length < fuel) (hrest : ∀ c ∈ rest.head?, isShown c = true) :
    ∃ e', emptyLines (some 2) fuel e ⟨bs ++ (start ++ rest), m⟩ =
        .ok (e', ⟨rest, m.after (bs ++ start)⟩) ∧ e'.breaks = e.breaks ++ bs := by
  obtain ⟨fuel, rfl⟩ : ∃ n, fuel = n + 1 := ⟨fuel - 1, by omega⟩
  induction bs generalizing m e fuel with
  | nil =>
      have hnotab : ∀ m', (⟨rest, m'⟩ : Cursor).sees '\t' = false := by
        intro m'
        cases rest with
        | nil => rfl
        | cons c rest => simpa [Cursor.sees] using not_blank_tab_of_shown (hrest c rfl)
      rw [List.append_nil]
      rcases h with ⟨rfl, hline⟩ | ⟨rfl, hspace⟩
      · have hbreak := Cursor.lineBreak?_of_not_break hline (m.after indentation)
        rw [List.nil_append, emptyLines_succ fuel e (skip_indentation hm rest) (hnotab _), hbreak]
        exact ⟨_, rfl, rfl⟩
      · have hbreak := Cursor.lineBreak?_of_not_break
          (fun c hc => isBreak_of_not_isSpace (hspace c hc)) m
        have hno : ∀ c ∈ rest.head?, c ≠ ' ' := by
          rintro c hc rfl
          exact absurd (hspace ' ' hc).symm Bool.false_ne_true
        rw [List.nil_append, List.nil_append, emptyLines_succ fuel e (skip_of_no_space hno m _)
          (hnotab _), hbreak]
        exact ⟨_, rfl, rfl⟩
  | cons b bs ih =>
      obtain ⟨hshown, hb⟩ := hbs b (by simp)
      have hno : ∀ c ∈ (b :: (bs ++ (start ++ rest))).head?, c ≠ ' ' := by
        rintro c ⟨⟩ rfl
        exact absurd hb Bool.false_ne_true
      have hnotab : (⟨b :: (bs ++ (start ++ rest)), m⟩ : Cursor).sees '\t' = false := by
        simpa [Cursor.sees] using not_blank_tab_of_shown hshown
      rw [List.length_cons] at hfuel
      obtain ⟨fuel, rfl⟩ : ∃ n, fuel = n + 1 := ⟨fuel - 1, by omega⟩
      have hcolumn : (m.step b).column = 0 := by rw [Mark.step_of_break hb]
      obtain ⟨e', hread, hbreaks⟩ := ih (fun c hc => hbs c (by simp [hc])) hcolumn
        ⟨e.breaks ++ [b], m.step b, max e.deepest m.column⟩ fuel (by omega)
      rw [List.cons_append, emptyLines_succ (fuel + 1) e (skip_of_no_space hno m _) hnotab,
        Cursor.lineBreak?_cons hshown hb]
      refine ⟨e', hread, ?_⟩
      rw [hbreaks, List.append_assoc]
      rfl

/-! ### Lines -/

/-- At the end of a block scalar no line is left. -/
theorem blockLines_end (literal : Bool) (fuel : Nat) (s : BlockState) (stop : Mark)
    (hm : m.column = 0) :
    blockLines literal 2 fuel s stop ⟨rest, m⟩ = .ok ((s, stop), ⟨rest, m⟩) := by
  cases fuel with
  | zero => rfl
  | succ fuel =>
      have hne : m.column ≠ 2 := by omega
      simp [blockLines, hne]

/-- One line is read with the breaks after it. -/
theorem blockLines_line {b : Char} {w bs start : List Char} (hw : ∀ c ∈ w, isBreak c = false)
    (hb : isShown b = true ∧ isBreak b = true)
    (hbs : ∀ c ∈ bs, isShown c = true ∧ isBreak c = true) (h : Opens start rest)
    (hrest : ∀ c ∈ rest.head?, isShown c = true) (hm : m.column = 2) (fuel : Nat) (s : BlockState)
    (stop : Mark) :
    ∃ blank stop', blockLines true 2 (fuel + 1) s stop ⟨w ++ b :: (bs ++ (start ++ rest)), m⟩ =
      blockLines true 2 fuel ⟨s.text ++ s.first ++ s.more ++ w, [b], bs, blank⟩ stop'
        ⟨rest, m.after (w ++ b :: bs ++ start)⟩ := by
  have hline : (⟨w ++ b :: (bs ++ (start ++ rest)), m⟩ : Cursor).takeWhile (fun ch => !isBreak ch) =
      (w, ⟨b :: (bs ++ (start ++ rest)), m.after w⟩) := by
    refine Cursor.takeWhile_append (fun c hc => by simp [hw c hc]) hw ?_ m
    rintro c ⟨⟩
    simp [hb.2]
  have hbreak := Cursor.lineBreak?_cons hb.1 hb.2 (bs ++ (start ++ rest)) (m.after w)
  have hempty : (w ++ b :: (bs ++ (start ++ rest))).isEmpty = false := by simp
  have hcolumn : ((m.after w).step b).column = 0 := by rw [Mark.step_of_break hb.2]
  have hfuel : bs.length < (bs ++ (start ++ rest)).length + 1 := by
    rw [List.length_append]
    omega
  obtain ⟨e, hread, hbreaks⟩ :=
    emptyLines_opens h hbs hcolumn ⟨[], (m.after w).step b, 0⟩ hfuel hrest
  refine ⟨(⟨w ++ b :: (bs ++ (start ++ rest)), m⟩ : Cursor).at_ Text.isBlank, e.stop, ?_⟩
  simp only [blockLines, hm, hempty, hline, hbreak, Cursor.skipBreak, hread, hbreaks]
  simp [BlockState.join, Mark.after_append]

/-- A text is some lines, the break after the last of them, and empty lines. -/
structure Lined (cs front : List Char) (b : Char) (bs : List Char) : Prop where
  eq : cs = front ++ b :: bs
  line : ∃ c, front.getLast? = some c ∧ isBreak c = false
  breaks : ∀ c ∈ b :: bs, isBreak c = true

theorem Lined.append {w front bs : List Char} {b : Char} (h : Lined cs front b bs) :
    Lined (w ++ cs) (w ++ front) b bs := by
  obtain ⟨rfl, ⟨c, hlast, hc⟩, hbreaks⟩ := h
  refine ⟨(List.append_assoc ..).symm, ⟨c, ?_, hc⟩, hbreaks⟩
  rw [List.getLast?_append, hlast]
  rfl

/-- A text whose last line is ended and that begins with no break is a line, the breaks that end it,
and the rest. -/
theorem exists_line (hends : endsLine cs = true) (hhead : ∀ c ∈ cs.head?, isBreak c = false) :
    ∃ w b bs ds, cs = w ++ b :: bs ++ ds ∧ w ≠ [] ∧ (∀ c ∈ w, isBreak c = false) ∧
      (∀ c ∈ b :: bs, isBreak c = true) ∧ ∀ c ∈ ds.head?, isBreak c = false := by
  obtain ⟨w, g, ds, rfl, hw, hg, hds, hempty⟩ := exists_parts isBreak cs
  have hgne : g ≠ [] := by
    rintro rfl
    obtain rfl := hempty rfl
    rw [List.append_nil, List.append_nil, endsLine_of_line hw] at hends
    exact nomatch hends
  obtain ⟨b, bs, rfl⟩ := List.exists_cons_of_ne_nil hgne
  refine ⟨w, b, bs, ds, rfl, ?_, hw, hg, hds⟩
  rintro rfl
  have hb := hg b (by simp)
  rw [hhead b rfl] at hb
  exact nomatch hb

/-- A line is written with the breaks that end it, and then a line begins. -/
theorem indentLines_line {w bs : List Char} {b : Char} (hw : ∀ c ∈ w, isBreak c = false)
    (hbs : ∀ c ∈ b :: bs, isBreak c = true) (ds : List Char) :
    indentLines false (w ++ b :: bs ++ ds) = w ++ b :: bs ++ indentLines true ds := by
  rw [List.append_assoc, indentLines_append_line hw,
    indentLines_append_breaks (hbs b (by simp)) fun c hc => hbs c (by simp [hc]),
    List.append_assoc]

/-- **The lines of a text are read back**, if the last one is ended. -/
theorem blockLines_text (hcs : ∀ c ∈ cs, isShown c = true) (hends : endsLine cs = true)
    (hhead : ∀ c ∈ cs.head?, isBreak c = false)
    (hrest : ∀ c ∈ rest.head?, isShown c = true ∧ isSpace c = false) (hm : m.column = 2)
    {fuel : Nat} (hfuel : cs.length ≤ fuel) (s : BlockState) (stop : Mark) :
    ∃ front b bs blank stop', Lined cs front b bs ∧
      blockLines true 2 fuel s stop ⟨indentLines false cs ++ rest, m⟩ =
        .ok ((⟨s.text ++ s.first ++ s.more ++ front, [b], bs, blank⟩, stop'),
          ⟨rest, m.after (indentLines false cs)⟩) := by
  induction hn : cs.length using Nat.strong_induction_on generalizing cs m fuel s stop with
  | _ n ih =>
      subst hn
      obtain ⟨w, b, bs, ds, rfl, hwne, hw, hbreaks, hds⟩ := exists_line hends hhead
      have hb : isShown b = true ∧ isBreak b = true := ⟨hcs b (by simp), hbreaks b (by simp)⟩
      have hbs : ∀ c ∈ bs, isShown c = true ∧ isBreak c = true :=
        fun c hc => ⟨hcs c (by simp [hc]), hbreaks c (by simp [hc])⟩
      have hcolumn : (m.after (w ++ b :: bs)).column = 0 :=
        Mark.column_after_line hb.2 (fun c hc => (hbs c hc).2) m
      have hwlast : ∃ c, w.getLast? = some c ∧ isBreak c = false :=
        ⟨_, List.getLast?_eq_some_getLast hwne, hw _ (List.getLast_mem hwne)⟩
      simp only [List.length_append, List.length_cons] at hfuel
      obtain ⟨fuel, rfl⟩ : ∃ n, fuel = n + 1 := ⟨fuel - 1, by omega⟩
      rw [indentLines_line hw hbreaks]
      cases ds with
      | nil =>
          -- the last line: what comes after the scalar stands at the start of a line
          have hopens : Opens [] rest := .inr ⟨rfl, fun c hc => (hrest c hc).2⟩
          obtain ⟨blank, stop', hread⟩ := blockLines_line hw hb hbs hopens
            (fun c hc => (hrest c hc).1) hm fuel s stop
          refine ⟨w, b, bs, blank, stop', ⟨by rw [List.append_nil], hwlast, hbreaks⟩, ?_⟩
          simp only [indentLines, List.append_nil, List.nil_append, List.append_assoc,
            List.cons_append] at hread hcolumn ⊢
          rw [hread, blockLines_end true fuel _ stop' hcolumn]
      | cons d ds =>
          have hd : isBreak d = false := hds d rfl
          have hopens : Opens indentation (indentLines false (d :: ds) ++ rest) := by
            refine .inl ⟨rfl, ?_⟩
            simp [indentLines, hd]
          obtain ⟨blank, stop', hread⟩ := blockLines_line hw hb hbs hopens
            (by simp [indentLines, hd, hcs d]) hm fuel s stop
          have hcolumn' : (m.after (w ++ b :: bs ++ indentation)).column = 2 := by
            rw [Mark.after_append, Mark.column_after_of_line isBreak_of_mem_indentation, hcolumn]
            rfl
          have hends' : endsLine (d :: ds) = true := by
            rwa [endsLine_append (List.cons_ne_nil d ds)] at hends
          have hlength : (d :: ds).length < (w ++ b :: bs ++ d :: ds).length := by
            simp only [List.length_append, List.length_cons]
            omega
          have hfuel' : (d :: ds).length ≤ fuel := by omega
          obtain ⟨front, b', bs', blank', stop'', hlined, hread'⟩ := ih (d :: ds).length hlength
            (fun c hc => hcs c (List.mem_append_right _ hc)) hends' hds hcolumn' hfuel'
            ⟨s.text ++ s.first ++ s.more ++ w, [b], bs, blank⟩ stop' rfl
          refine ⟨w ++ b :: bs ++ front, b', bs', blank', stop'', hlined.append, ?_⟩
          rw [indentLines_fresh hd]
          simp only [List.append_assoc, List.cons_append] at hread hread' ⊢
          rw [hread, hread']
          simp [Mark.after_append]

/-! ### The first line -/

/-- Whether the indentation has to be said, as a line that is empty or begins with a space does not
show it. -/
def isDeep (cs : List Char) : Bool := cs.head?.any fun c => c == ' ' || isBreak c

/-- What is to happen to the last breaks so that a text comes back. -/
def chompingOf (cs : List Char) : Chomping :=
  match cs.reverse with
  | [] => .strip
  | c :: before =>
      if !isBreak c then .strip else if before.head?.all isBreak then .keep else .clip

/-- What the first line of a block scalar says about a text. -/
def blockHeaderOf (cs : List Char) : BlockHeader :=
  ⟨chompingOf cs, if isDeep cs then some 2 else none⟩

/-- The hints are read back. -/
theorem blockHeader_blockHints (cs rest : List Char) (m : Mark) :
    blockHeader ⟨blockHints cs ++ '\n' :: rest, m⟩ =
        .ok (blockHeaderOf cs, ⟨'\n' :: rest, m.after (blockHints cs)⟩) ∧
      ∀ c ∈ blockHints cs, isShown c = true := by
  have hhints : blockHints cs = (if isDeep cs then ['2'] else []) ++
      match chompingOf cs with
      | .strip => ['-']
      | .keep => ['+']
      | .clip => [] := by
    rw [blockHints, isDeep, chompingOf]
    congr 1
    cases cs.reverse with
    | nil => rfl
    | cons c before =>
        dsimp only
        split
        · rfl
        · split <;> rfl
  rw [hhints, blockHeaderOf]
  cases isDeep cs <;> cases chompingOf cs <;> exact ⟨rfl, List.all_eq_true.1 rfl⟩

/-! ### Last breaks -/

/-- Two ways to look at the end of a text. -/
theorem Lined.snoc {front bs ds : List Char} {b d : Char} (h : Lined (ds ++ [d]) front b bs) :
    bs = [] ∧ ds = front ∧ d = b ∨ ∃ cs, bs = cs ++ [d] ∧ Lined ds front b cs := by
  obtain ⟨heq, hline, hbreaks⟩ := h
  rcases List.eq_nil_or_concat bs with rfl | ⟨cs, e, rfl⟩
  · obtain ⟨hds, hd⟩ := List.append_inj' heq rfl
    exact .inl ⟨rfl, hds, (List.cons.inj hd).1⟩
  · rw [List.concat_eq_append] at heq hbreaks ⊢
    rw [← List.cons_append, ← List.append_assoc] at heq
    obtain ⟨hds, hd⟩ := List.append_inj' heq rfl
    obtain rfl := (List.cons.inj hd).1
    exact .inr ⟨cs, rfl, hds, hline, fun c hc => hbreaks c (List.mem_append_left _ hc)⟩

theorem Lined.isBreak_last {front bs ds : List Char} {b d : Char}
    (h : Lined (ds ++ [d]) front b bs) : isBreak d = true := by
  rcases h.snoc with ⟨-, -, rfl⟩ | ⟨cs, rfl, -⟩
  · exact h.breaks d (by simp)
  · exact h.breaks d (by simp)

/-- A text with its last line ended. -/
def ended (cs : List Char) : List Char := cs ++ if endsLine cs then [] else ['\n']

theorem endsLine_snoc (ds : List Char) (d : Char) : endsLine (ds ++ [d]) = isBreak d := by
  simp [endsLine]

theorem chompingOf_snoc (ds : List Char) (d : Char) :
    chompingOf (ds ++ [d]) =
      if !isBreak d then .strip else if ds.getLast?.all isBreak then .keep else .clip := by
  simp only [chompingOf, List.reverse_append, List.reverse_singleton, List.singleton_append,
    List.head?_reverse]

/-- With the last breaks treated, the text is what it was before its last line was ended. -/
theorem chomped_of_lined {front bs : List Char} {b : Char} (hne : cs ≠ [])
    (h : Lined (ended cs) front b bs) (blank : Bool) :
    (⟨front, [b], bs, blank⟩ : BlockState).chomped (chompingOf cs) = cs := by
  rcases List.eq_nil_or_concat cs with rfl | ⟨ds, d, rfl⟩
  · exact absurd rfl hne
  · rw [List.concat_eq_append] at h ⊢
    rw [ended, endsLine_snoc] at h
    rw [chompingOf_snoc]
    cases hd : isBreak d with
    | false =>
        -- the break that ended the last line is not part of the text
        rw [hd, if_neg Bool.false_ne_true] at h
        rcases h.snoc with ⟨-, rfl, -⟩ | ⟨cs, -, h⟩
        · rfl
        · rw [h.isBreak_last] at hd
          exact nomatch hd
    | true =>
        rw [hd, if_pos rfl, List.append_nil] at h
        cases hall : ds.getLast?.all isBreak with
        | true => simp [BlockState.chomped, h.eq]
        | false =>
            rcases h.snoc with ⟨-, rfl, rfl⟩ | ⟨cs, -, h⟩
            · rfl
            · -- the character before the last break is none
              rcases List.eq_nil_or_concat ds with rfl | ⟨es, e, rfl⟩
              · exact nomatch hall
              · rw [List.concat_eq_append] at h hall
                rw [List.getLast?_append, List.getLast?_singleton, Option.some_or, Option.all_some,
                  h.isBreak_last] at hall
                exact nomatch hall

/-! ### Block scalars -/

/-- A text that consists of line breaks keeps them. -/
theorem chompingOf_breaks (h : ∀ c ∈ cs, isBreak c = true) (hne : cs ≠ []) :
    chompingOf cs = .keep := by
  rcases List.eq_nil_or_concat cs with rfl | ⟨ds, d, rfl⟩
  · exact absurd rfl hne
  · rw [List.concat_eq_append] at h ⊢
    have hall : ds.getLast?.all isBreak = true := by
      cases hlast : ds.getLast? with
      | none => rfl
      | some e => exact h e (List.mem_append_left _ (List.mem_of_getLast? hlast))
    rw [chompingOf_snoc, h d (by simp), hall]
    rfl

/-- What stands at the start of the first line that is not empty. -/
def opening : List Char → List Char
  | [] => []
  | _ :: _ => indentation

theorem indentLines_opening {bs : List Char} (hbs : ∀ c ∈ bs, isBreak c = true)
    (hds : ∀ c ∈ ds.head?, isBreak c = false) :
    indentLines true (bs ++ ds) = bs ++ (opening ds ++ indentLines false ds) := by
  have hopening : indentLines true ds = opening ds ++ indentLines false ds := by
    cases ds with
    | nil => rfl
    | cons d ds => exact indentLines_fresh (hds d rfl) ds
  cases bs with
  | nil => exact hopening
  | cons b bs =>
      rw [indentLines_append_breaks (hbs b (by simp)) fun c hc => hbs c (by simp [hc]), hopening]

theorem opens_opening (hds : ∀ c ∈ ds.head?, isBreak c = false)
    (hrest : ∀ c ∈ rest.head?, isSpace c = false) :
    Opens (opening ds) (indentLines false ds ++ rest) := by
  cases ds with
  | nil => exact .inr ⟨rfl, hrest⟩
  | cons d ds =>
      refine .inl ⟨rfl, ?_⟩
      simp [indentLines, hds d rfl]

/-- The indentation that the first line of a block scalar gives. -/
def givenIndent (around : Int) (cs : List Char) : Option Nat :=
  (blockHeaderOf cs).indent.map fun n => (max around 0).toNat + n

/-- The indentation of a line that begins with neither a space nor a break is found. -/
theorem emptyLines_none {c : Char} (hshown : isShown c = true) (hspace : isSpace c = false)
    (hm : m.column = 0) (rest : List Char) (fuel : Nat) :
    emptyLines none (fuel + 1) ⟨[], m, 0⟩ ⟨indentation ++ c :: rest, m⟩ =
      .ok (⟨[], m, 2⟩, ⟨c :: rest, m.after indentation⟩) := by
  have hne : (c == ' ') = false := by
    rw [beq_eq_false_iff_ne]
    rintro rfl
    exact nomatch hspace
  have hwidth : ((⟨indentation ++ c :: rest, m⟩ : Cursor).takeWhile (· == ' ')).1.length =
      indentation.length := by
    simp [Cursor.takeWhile, indentation, hne]
  have hskip : (⟨indentation ++ c :: rest, m⟩ : Cursor).skip indentation.length =
      ⟨c :: rest, m.after indentation⟩ := Cursor.skip_append isBreak_of_mem_indentation _ m
  have hnotab : (⟨c :: rest, m.after indentation⟩ : Cursor).sees '\t' = false := by
    simpa [Cursor.sees] using not_blank_tab_of_shown hshown
  have hbreak : (⟨c :: rest, m.after indentation⟩ : Cursor).lineBreak? = none :=
    Cursor.lineBreak?_of_not_break (by simpa using isBreak_of_not_isSpace hspace) _
  have hcolumn : (m.after indentation).column = 2 := by
    rw [Mark.column_after_of_line isBreak_of_mem_indentation, hm]
    rfl
  simp only [emptyLines, Option.elim_none, hwidth, hskip, hnotab, hbreak, hcolumn]
  rfl

/-- The lines up to the first one that is not empty are passed over, and the indentation is two
columns. -/
theorem emptyLines_begins {around : Int} {bs : List Char} (haround : around = -1 ∨ around = 0)
    (hcs : cs ≠ []) (hended : ended cs = bs ++ ds)
    (hshown : ∀ c ∈ ended cs, isShown c = true) (hbs : ∀ c ∈ bs, isBreak c = true)
    (hds : ∀ c ∈ ds.head?, isBreak c = false)
    (hrest : ∀ c ∈ rest.head?, isShown c = true ∧ isSpace c = false) (hm : m.column = 0)
    {fuel : Nat} (hfuel : bs.length < fuel) :
    ∃ e, emptyLines (givenIndent around cs) fuel ⟨[], m, 0⟩
          ⟨bs ++ (opening ds ++ (indentLines false ds ++ rest)), m⟩ =
        .ok (e, ⟨indentLines false ds ++ rest, m.after (bs ++ opening ds)⟩) ∧
      e.breaks = bs ∧
      (givenIndent around cs).getD (max (max e.deepest (around + 1).toNat) 1) = 2 := by
  rw [hended] at hshown
  cases hdeep : isDeep cs with
  | true =>
      have hgiven : givenIndent around cs = some 2 := by
        rcases haround with rfl | rfl <;> simp [givenIndent, blockHeaderOf, hdeep]
      have hnext : ∀ c ∈ (indentLines false ds ++ rest).head?, isShown c = true := by
        cases ds with
        | nil => exact fun c hc => (hrest c hc).1
        | cons d ds => simp [indentLines, hds d rfl, hshown d]
      obtain ⟨e, hread, hbreaks⟩ := emptyLines_opens
        (opens_opening hds fun c hc => (hrest c hc).2)
        (fun c hc => ⟨hshown c (List.mem_append_left _ hc), hbs c hc⟩) hm ⟨[], m, 0⟩ hfuel hnext
      rw [hgiven]
      exact ⟨e, hread, hbreaks, rfl⟩
  | false =>
      have hgiven : givenIndent around cs = none := by simp [givenIndent, blockHeaderOf, hdeep]
      obtain ⟨c, cs, rfl⟩ := List.exists_cons_of_ne_nil hcs
      simp only [isDeep, List.head?_cons, Option.any_some, Bool.or_eq_false_iff,
        beq_eq_false_iff_ne] at hdeep
      rw [ended, List.cons_append] at hended
      cases bs with
      | cons b bs =>
          obtain rfl := (List.cons.inj hended).1
          rw [hbs c (by simp)] at hdeep
          exact absurd hdeep.2.symm Bool.false_ne_true
      | nil =>
          obtain rfl : ds = _ := hended.symm
          have hc : isShown c = true := hshown c (by simp)
          have hspace : isSpace c = false := by
            rw [← Bool.not_eq_true, isSpace_iff_of_shown hc]
            simp [hdeep]
          obtain ⟨fuel, rfl⟩ : ∃ n, fuel = n + 1 := ⟨fuel - 1, by omega⟩
          have hread := emptyLines_none hc hspace hm
            (indentLines false (cs ++ if endsLine (c :: cs) then [] else ['\n']) ++ rest) fuel
          rw [hgiven]
          refine ⟨⟨[], m, 2⟩, ?_, rfl, by rcases haround with rfl | rfl <;> rfl⟩
          simpa [indentLines, hdeep.2, opening] using hread

theorem endsLine_ended (cs : List Char) : endsLine (ended cs) = true := by
  rw [ended]
  cases h : endsLine cs with
  | true => rwa [if_pos rfl, List.append_nil]
  | false =>
      rw [if_neg Bool.false_ne_true, endsLine_snoc]
      rfl

theorem exists_of_endsLine (h : endsLine cs = true) : ∃ ds b, cs = ds ++ [b] ∧ isBreak b = true := by
  rcases List.eq_nil_or_concat cs with rfl | ⟨ds, b, rfl⟩
  · exact nomatch h
  · rw [List.concat_eq_append] at h ⊢
    exact ⟨ds, b, rfl, by rwa [endsLine_snoc] at h⟩

/-- A break at the end is written as it is. -/
theorem indentLines_snoc {b : Char} (hb : isBreak b = true) (fresh : Bool) (cs : List Char) :
    indentLines fresh (cs ++ [b]) = indentLines fresh cs ++ [b] := by
  induction cs generalizing fresh with
  | nil => simp [indentLines, hb]
  | cons c cs ih =>
      simp only [List.cons_append, indentLines, ih]
      split
      · rfl
      · simp only [List.append_assoc, List.cons_append]

theorem indentLines_ended (fresh : Bool) (cs : List Char) :
    indentLines fresh cs ++ (if endsLine cs then [] else ['\n']) =
      indentLines fresh (ended cs) := by
  rw [ended]
  split
  · rw [List.append_nil, List.append_nil]
  · exact (indentLines_snoc rfl fresh cs).symm

theorem length_le_indentLines (fresh : Bool) (cs : List Char) :
    cs.length ≤ (indentLines fresh cs).length := by
  induction cs generalizing fresh with
  | nil => exact Nat.le_refl _
  | cons c cs ih =>
      rw [indentLines]
      split
      · exact Nat.succ_le_succ (ih true)
      · rw [List.length_append, List.length_cons, List.length_cons]
        have hrec := ih false
        omega

/-- What is read after the breaks at the front of a block scalar makes up the text. -/
theorem blockLines_chomped {bs : List Char} (hcs : cs ≠ []) (hended : ended cs = bs ++ ds)
    (hshown : ∀ c ∈ ended cs, isShown c = true) (hbs : ∀ c ∈ bs, isBreak c = true)
    (hds : ∀ c ∈ ds.head?, isBreak c = false)
    (hrest : ∀ c ∈ rest.head?, isShown c = true ∧ isSpace c = false) (hm : m.column = 0)
    {fuel : Nat} (hfuel : ds.length ≤ fuel) (stop : Mark) :
    ∃ s stop', blockLines true 2 fuel ⟨[], [], bs, false⟩ stop
          ⟨indentLines false ds ++ rest, m.after (bs ++ opening ds)⟩ =
        .ok ((s, stop'), ⟨rest, (m.after (bs ++ opening ds)).after (indentLines false ds)⟩) ∧
      s.chomped (chompingOf cs) = cs := by
  cases ds with
  | nil =>
      -- the text has no line that is not empty
      have hcolumn : (m.after (bs ++ opening [])).column = 0 := by
        rw [opening, List.append_nil]
        exact Mark.column_after_breaks hbs hm
      have hall : ended cs = cs := by
        rw [ended]
        split
        · rw [List.append_nil]
        · rename_i hnot
          rw [List.append_nil] at hended
          refine absurd (endsLine_of_breaks (fun c hc => hbs c ?_) hcs) hnot
          rw [← hended, ended]
          exact List.mem_append_left _ hc
      have hbreaks : cs = bs := by rw [← hall, hended, List.append_nil]
      have hkeep : chompingOf cs = .keep := chompingOf_breaks (hbreaks ▸ hbs) hcs
      refine ⟨⟨[], [], bs, false⟩, stop, ?_, ?_⟩
      · exact blockLines_end true fuel _ stop hcolumn
      · rw [hkeep]
        exact hbreaks.symm
  | cons d ds =>
      have hcolumn : (m.after (bs ++ opening (d :: ds))).column = 2 := by
        rw [opening, Mark.after_append, Mark.column_after_of_line isBreak_of_mem_indentation,
          Mark.column_after_breaks hbs hm]
        rfl
      have hends : endsLine (d :: ds) = true := by
        rw [← endsLine_append (List.cons_ne_nil d ds), ← hended]
        exact endsLine_ended cs
      have hshown' : ∀ c ∈ d :: ds, isShown c = true := by
        intro c hc
        refine hshown c ?_
        rw [hended]
        exact List.mem_append_right _ hc
      obtain ⟨front, b, bs', blank, stop', hlined, hread⟩ := blockLines_text hshown' hends hds
        hrest hcolumn hfuel ⟨[], [], bs, false⟩ stop
      refine ⟨_, stop', hread, ?_⟩
      exact chomped_of_lined hcs (hended ▸ hlined.append) blank

theorem isShown_ended (h : ∀ c ∈ cs, isShown c = true) : ∀ c ∈ ended cs, isShown c = true := by
  intro c hc
  rw [ended] at hc
  rcases List.mem_append.1 hc with hc | hc
  · exact h c hc
  · obtain rfl : c = '\n' := by
      split at hc
      · exact nomatch hc
      · simpa using hc
    rfl

/-- A text is some breaks and what begins with none. -/
theorem exists_breaks (cs : List Char) : ∃ bs ds, cs = bs ++ ds ∧ (∀ c ∈ bs, isBreak c = true) ∧
    ∀ c ∈ ds.head?, isBreak c = false := by
  refine ⟨cs.takeWhile isBreak, cs.dropWhile isBreak, List.takeWhile_append_dropWhile.symm, ?_, ?_⟩
  · exact List.all_eq_true.1 List.all_takeWhile
  · intro c hc
    have hnot := List.head?_dropWhile_not isBreak cs
    rw [Option.mem_def.1 hc] at hnot
    exact hnot

/-- A block scalar with its last line ended: the bar, the hints, and the lines. -/
theorem writeLiteral_ended (cs : List Char) :
    writeLiteral cs ++ (if endsLine cs then [] else ['\n']) =
      '|' :: (blockHints cs ++ '\n' :: indentLines true (ended cs)) := by
  rw [← indentLines_ended]
  simp [writeLiteral]

/-- **A block scalar is read back**, whether it stands by itself or in a mapping. -/
theorem block_writeLiteral {around : Int} (haround : around = -1 ∨ around = 0)
    (h : LiteralText cs) (hrest : ∀ c ∈ rest.head?, isShown c = true ∧ isSpace c = false)
    (m : Mark) :
    ∃ stop, block true around
        ⟨writeLiteral cs ++ (if endsLine cs then [] else ['\n']) ++ rest, m⟩ =
      .ok ((cs, stop),
        ⟨rest, m.after (writeLiteral cs ++ if endsLine cs then [] else ['\n'])⟩) := by
  obtain ⟨⟨hall, -⟩, -, hfeed⟩ := h
  have hcs : cs ≠ [] := by
    rintro rfl
    exact nomatch hfeed
  have hshown := isShown_ended hall
  obtain ⟨bs, ds, hended, hbs, hds⟩ := exists_breaks (ended cs)
  obtain ⟨hheader, -⟩ := blockHeader_blockHints cs
    (bs ++ (opening ds ++ (indentLines false ds ++ rest))) (m.step '|')
  have hend : (⟨'\n' :: (bs ++ (opening ds ++ (indentLines false ds ++ rest))),
      (m.step '|').after (blockHints cs)⟩ : Cursor).lineEnd? =
        some ⟨bs ++ (opening ds ++ (indentLines false ds ++ rest)),
          ((m.step '|').after (blockHints cs)).step '\n'⟩ := rfl
  have hcolumn : (((m.step '|').after (blockHints cs)).step '\n').column = 0 := rfl
  have hfuel : bs.length < (bs ++ (opening ds ++ (indentLines false ds ++ rest))).length + 1 := by
    rw [List.length_append]
    omega
  obtain ⟨e, hempty, hbreaks, hindent⟩ :=
    emptyLines_begins haround hcs hended hshown hbs hds hrest hcolumn hfuel
  have hfuel' : ds.length ≤ (indentLines false ds ++ rest).length + 1 := by
    have hlength : ds.length ≤ (indentLines false ds).length := length_le_indentLines false ds
    rw [List.length_append]
    omega
  obtain ⟨s, stop, hread, hchomped⟩ :=
    blockLines_chomped hcs hended hshown hbs hds hrest hcolumn hfuel' e.stop
  rw [writeLiteral_ended, hended, indentLines_opening hbs hds]
  refine ⟨stop, ?_⟩
  have hnext : (⟨'|' :: (blockHints cs ++ '\n' :: (bs ++ (opening ds ++ (indentLines false ds))) ++
      rest), m⟩ : Cursor).next = ⟨blockHints cs ++ '\n' :: (bs ++ (opening ds ++
        (indentLines false ds ++ rest))), m.step '|'⟩ := by
    rw [Cursor.next_cons (by decide)]
    simp
  rw [givenIndent] at hempty hindent
  simp only [List.cons_append, block, hnext, hheader, hend, hempty, hindent, hbreaks, hread]
  simp [hchomped, blockHeaderOf, Mark.after_append]

/-- After a block scalar a line begins. -/
theorem column_after_writeLiteral (cs : List Char) (m : Mark) :
    (m.after (writeLiteral cs ++ if endsLine cs then [] else ['\n'])).column = 0 := by
  obtain ⟨ds, b, hended, hb⟩ := exists_of_endsLine (endsLine_ended cs)
  have hwritten : writeLiteral cs ++ (if endsLine cs then [] else ['\n']) =
      '|' :: (blockHints cs ++ '\n' :: indentLines true ds) ++ [b] := by
    rw [writeLiteral_ended, hended, indentLines_snoc hb]
    simp
  rw [hwritten]
  exact Mark.column_after_break hb m _

end Yaml

end SecretResolver
