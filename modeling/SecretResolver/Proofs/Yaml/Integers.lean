/-
**Integers of any size in YAML.**

A plain scalar that is the digits of an integer is an integer if that has 64 bits.  Up to 128 bits
it is no value at all, and beyond that a double, unless there is no finite one: then it is text.  So
the digits are kept for the small and, as text, for the very great ones.

Main definitions:

* `Yaml.fieldLine` — a mapping of one line;
* `Yaml.KeepsDigits` — the integers that keep their digits.

Main results:

* `Yaml.scalarOf?_toString_large`, `Yaml.text_scalarOf?_iff` — what the digits of an integer are;
* `Yaml.Bare.plainText` — words and numbers are plain text;
* `Yaml.read_fieldLine` — **a mapping of one line is read**.
-/

import Mathlib.Data.List.TakeWhile
import SecretResolver.Proofs.Interchange.Nodes
import SecretResolver.Proofs.Number.Doubles
import SecretResolver.Proofs.Yaml.ReadBack

set_option relaxedAutoImplicit false
set_option autoImplicit false

namespace SecretResolver

namespace Yaml

variable {m : Mark} {n : Int} {name : String} {w : List Char}

/-! ### What digits denote -/

/-- A sign, if there is one, and digits. -/
theorem toList_toString_sign (n : Int) :
    (toString n).toList =
      (if decide (n < 0) = true then ['-'] else []) ++ Nat.toDigits 10 n.natAbs := by
  rw [Text.toList_toString]
  simp only [decide_eq_true_eq]

theorem Canonical.decimal? {cs : List Char} (h : Canonical cs) :
    Numeral.decimal? cs = some (Text.ofDigits cs, 0) := by
  have htake : cs.takeWhile Text.isDigit = cs := List.takeWhile_eq_self_iff.2 h.digits
  have hdrop : cs.dropWhile Text.isDigit = [] := List.dropWhile_eq_nil_iff.2 h.digits
  have hempty : cs.isEmpty = false := by simpa using h.nonempty
  simp [Numeral.decimal?, htake, hdrop, hempty]

/-- The double that the digits of an integer denote, if there is a finite one. -/
theorem real?_toString (n : Int) :
    real? (toString n) =
      if n.natAbs < Binary64.overflow then
        some (Binary64.ofDecimal (decide (n < 0)) n.natAbs 0)
      else none := by
  have habove : toString n ∉ [".inf", ".Inf", ".INF", "+.inf", "+.Inf", "+.INF"] :=
    FloatStyle.toString_not_mem (by decide) n
  have hbelow : toString n ∉ ["-.inf", "-.Inf", "-.INF"] :=
    FloatStyle.toString_not_mem (by decide) n
  have hnan : toString n ∉ [".nan", ".NaN", ".NAN"] := FloatStyle.toString_not_mem (by decide) n
  have hcanonical := canonical_toDigits n.natAbs
  rw [real?, if_neg habove, if_neg hbelow, if_neg hnan, finite?, toList_toString_sign]
  simp only [hcanonical.sign, hcanonical.decimal?, Text.ofDigits_toDigits,
    Binary64.isFinite_ofDecimal]

/-- **What the digits of other integers are**: no value, a double, or text. -/
theorem scalarOf?_toString_large (hn : isWord n = false) :
    scalarOf? (toString n) =
      if isDoubleWord n then none
      else if n.natAbs < Binary64.overflow then
        some (.real (Binary64.ofDecimal (decide (n < 0)) n.natAbs 0))
      else some (.text (toString n)) := by
  have hzero : hasLeadingZero (toString n).toList = false := by
    rw [toList_toString_sign]
    exact (canonical_toDigits n.natAbs).hasLeadingZero _
  have hreal : realOrText (toString n) =
      if n.natAbs < Binary64.overflow then
        .real (Binary64.ofDecimal (decide (n < 0)) n.natAbs 0)
      else .text (toString n) := by
    simp only [realOrText, hzero, real?_toString, Bool.false_eq_true, if_false]
    by_cases hfinite : n.natAbs < Binary64.overflow
    · simp only [if_pos hfinite]
    · simp only [if_neg hfinite]
  have hword : ¬ isWord n = true := by simp [hn]
  rw [scalarOf?_of_integer? (toString_not_mem_words n) (integer?_toString n), if_neg hword, hreal,
    apply_ite some]

/-- The integers that keep their digits: those of 64 bits, and those without a finite double. -/
def KeepsDigits (n : Int) : Prop := isWord n = true ∨ Binary64.overflow ≤ n.natAbs

/-- The integers of 128 bits have finite doubles. -/
theorem natAbs_lt_overflow (hn : isDoubleWord n = true) : n.natAbs < Binary64.overflow := by
  have hbits : n.natAbs < 2 ^ 128 := by
    simp only [isDoubleWord, Bool.and_eq_true, decide_eq_true_eq] at hn
    omega
  exact Binary64.lt_overflow hbits (by decide)

/-- **An integer has its digits as its text** exactly if it is one of those. -/
theorem text_scalarOf?_iff (n : Int) :
    (scalarOf? (toString n)).map Document.yamlText? = some (some (toString n)) ↔ KeepsDigits n := by
  by_cases hn : isWord n = true
  · refine iff_of_true ?_ (.inl hn)
    rw [scalarOf?_toString hn]
    rfl
  · rw [Bool.not_eq_true] at hn
    have hiff : KeepsDigits n ↔ Binary64.overflow ≤ n.natAbs := by simp [KeepsDigits, hn]
    rw [hiff, scalarOf?_toString_large hn]
    split
    · rename_i hdouble
      exact iff_of_false (by simp) (Nat.not_le.2 (natAbs_lt_overflow hdouble))
    · split
      · rename_i hfinite
        refine iff_of_false (fun h => ?_) (Nat.not_le.2 hfinite)
        exact FloatStyle.compact_ne_toString _ n (Option.some.inj (Option.some.inj h))
      · rename_i hlarge
        exact iff_of_true rfl (Nat.not_lt.1 hlarge)

/-! ### Plain text -/

/-- Where no space is, no comment begins and no colon ends anything. -/
theorem isChain_noComment (h : ∀ c ∈ w, isSpace c = false) : w.IsChain NoComment := by
  induction w with
  | nil => exact .nil
  | cons c w ih =>
      have hrec := ih fun d hd => h d (by simp [hd])
      cases w with
      | nil => exact .singleton c
      | cons d w => exact .cons_cons (fun hspace => absurd hspace (by simp [h c])) hrec

theorem tied_of_ne (h : ∀ c ∈ w, c ≠ ':') : Tied w := by
  induction w with
  | nil => trivial
  | cons c w ih => exact ⟨fun hc => absurd hc (h c (by simp)), ih fun d hd => h d (by simp [hd])⟩

/-- A letter or a digit begins plain text. -/
theorem forbidsFirst_of_isAlphanumeric {c : Char} (hc : Text.isAlphanumeric c = true)
    (followed : Bool) : forbidsFirst c followed = false := by
  have hall : ("#,[]\x7b\x7d&*!|>\x27\"%@\x60".toList.all fun d =>
      !Text.isAlphanumeric d) = true := by
    decide
  have hne (d : Char) (hd : Text.isAlphanumeric d = false) : (c == d) = false :=
    beq_false_of_ne (ne_of_isAlphanumeric hc hd)
  have hmem : c ∉ "#,[]\x7b\x7d&*!|>\x27\"%@\x60".toList := by
    intro hmem
    have hno := List.all_eq_true.1 hall c hmem
    rw [hc] at hno
    exact nomatch hno
  rw [forbidsFirst, decide_eq_false hmem, hne '?' rfl, hne ':' rfl, hne '-' rfl]
  rfl

/-- Words and numbers are plain text. -/
theorem Bare.plainText (h : Bare w) : PlainText w := by
  have hbare := h.isBare
  have hspace : ∀ d ∈ w, isSpace d = false := fun d hd => isSpace_of_isBare (hbare d hd)
  refine ⟨fun d hd => isShown_of_isBare (hbare d hd),
    fun d hd => isBreak_of_not_isSpace (hspace d hd), isChain_noComment hspace,
    tied_of_ne fun d hd => ne_of_isBare (hbare d hd) rfl, ?_, ?_⟩
  · intro hlast
    exact ne_of_isBare (hbare ' ' (List.mem_of_getLast? hlast)) rfl rfl
  · obtain ⟨c, cs, hc, hw⟩ := h.begins
    have hne (d : Char) (hd : Text.isAlphanumeric d = false) : c ≠ d := ne_of_isAlphanumeric hc hd
    rcases hw with rfl | rfl
    · refine ⟨c, cs, rfl, hne ' ' rfl, forbidsFirst_of_isAlphanumeric hc _, fun hmark => ?_⟩
      exact absurd hmark (not_or.2 ⟨hne '-' rfl, hne '.' rfl⟩)
    · have hcspace : isSpace c = false := hspace c (by simp)
      refine ⟨'-', c :: cs, rfl, by decide, ?_, fun _ htake => ?_⟩
      · simp [forbidsFirst, separatorAhead, hcspace]
      · exact hne '-' rfl (List.head_eq_of_cons_eq (List.cons.inj htake).2)

/-- A token begins with plain text. -/
theorem PlainText.starts {cs : List Char} (h : PlainText cs) (rest : List Char) :
    Starts (cs ++ rest) := by
  obtain ⟨c, hc, hspace, hhash⟩ := h.run.begins
  intro d hd
  obtain ⟨ds, rfl⟩ := List.head?_eq_some_iff.1 hc
  obtain rfl : c = d := Option.some.inj hd
  exact ⟨h.shown c (by simp), hspace, hhash⟩

/-! ### A mapping of one line -/

/-- A mapping of one line: a name and a word after it. -/
def fieldLine (name : String) (w : List Char) : List Char :=
  writeScalar name ++ ':' :: ' ' :: (w ++ ['\n'])

/-- When a space and plain text on its line are left after a token, the text is the next one. -/
theorem Lexer.through_plainText {cs rest : List Char} {held : List Token} {allowed : Bool}
    {l : Lexer} (hplain : PlainText cs) (hrest : Starts rest)
    (h : l.fetch = .ok (within .mapping ⟨' ' :: (cs ++ '\n' :: rest), m⟩ held allowed none)) :
    ∃ t, t.kind = .scalar cs .plain ∧ Through 2 l rest (held ++ [t]) := by
  have hready : (within .mapping ⟨' ' :: (cs ++ '\n' :: rest), m⟩ held allowed none).ready =
      .ok (within .mapping ⟨cs ++ '\n' :: rest, m.step ' '⟩ held allowed none) :=
    ready_space (hplain.starts _) rfl
  have hcolumn : Level.mapping.indent < ((m.step ' ').column : Int) := by
    rw [Mark.step_of_line rfl]
    exact Int.natCast_pos.2 (Nat.succ_pos _)
  obtain ⟨l', t, m', hfetch, ht, hnext, hm'⟩ : ∃ l' t m',
      (within .mapping ⟨cs ++ '\n' :: rest, m.step ' '⟩ held allowed none).fetchReady = .ok l' ∧
        t.kind = .scalar cs .plain ∧
        l'.ready = .ok (within .mapping ⟨rest, m'⟩ (held ++ [t]) true none) ∧ m'.column = 0 :=
    scanned_plainText hplain hcolumn hrest fun h => nomatch h
  rw [← fetch_of_ready hready] at hfetch
  exact ⟨t, ht, l', m', fetchTimes_trans (fetchTimes_one h) (fetchTimes_one hfetch), hnext, hm'⟩

/-- The tokens of a mapping of one line. -/
theorem tokens_fieldLine (hname : isSimpleKey name = true) (hw : Bare w) :
    ∃ (m m' : Mark) (t u : Token), t.kind = .scalar name.toList (styleOf name) ∧
      u.kind = .scalar w .plain ∧
      tokens (fieldLine name w) =
        ([⟨.blockMappingStart, .zero, .zero⟩, ⟨.key, .zero, .zero⟩, t, ⟨.value, m, m.step ':'⟩, u] ++
          closingTokens m', none) := by
  have hstarts : Starts (fieldLine name w) := writeScalar_starts name _
  obtain ⟨t, l₁, m, ht, hkey, hcolon⟩ :=
    Lexer.fetch_simpleKey hname rfl (Lexer.ready_start hstarts)
  obtain ⟨u, hu, l₂, m', hvalue, hready, hm'⟩ :=
    Lexer.through_plainText hw.plainText starts_nil hcolon
  obtain ⟨l₃, hend, hheld, hdone⟩ :=
    Lexer.fetch_end hm' hready (by simp [Level.opening, ht, hu])
  have htimes : Lexer.fetchTimes (1 + 2 + 1) (.start (fieldLine name w)) = .ok l₃ :=
    Lexer.fetchTimes_trans (Lexer.fetchTimes_trans hkey hvalue) (Lexer.fetchTimes_one hend)
  have hfuel : 1 + 2 + 1 + l₃.held.length ≤ 8 * (fieldLine name w).length + 8 := by
    have hchars : 1 ≤ (fieldLine name w).length := by
      rw [fieldLine, List.length_append, List.length_cons]
      omega
    rw [hheld]
    simp only [Level.opening, Level.closing, List.length_append, List.length_cons,
      List.length_nil]
    omega
  refine ⟨m, m', t, u, ht, hu, ?_⟩
  rw [tokens_of_fetchTimes htimes hdone hfuel, hheld]
  rfl

/-- The events of a mapping of one line. -/
theorem events_fieldLine (hname : isSimpleKey name = true) (hw : Bare w) :
    ∃ m₁ m₂ m₃ : Mark, events (fieldLine name w) =
      ⟨[(.mappingStart none none, .zero), (textEvent name, m₁), (.scalar none none w .plain, m₂),
        (.mappingEnd, m₃)], true, none, false⟩ := by
  obtain ⟨m, m', ⟨kind, start, stop⟩, ⟨kind', start', stop'⟩, ht, hu, htokens⟩ :=
    tokens_fieldLine hname hw
  obtain rfl : kind = _ := ht
  obtain rfl : kind' = _ := hu
  refine ⟨start, start', m', ?_⟩
  simp only [events, htokens]
  rfl

/-- A plain word as a node. -/
theorem walkNode_plainItem (d : Linked) (inner : Option (Walk Node)) (jumps : Nat) (w : List Char)
    (m : Mark) (rest : List PlacedItem) :
    walkNode scalarValue? d inner jumps ((.scalar none w .plain, m) :: rest) =
      match scalarOf? (String.ofList w) with
      | none => .error (.ofMark m)
      | some s => .ok (.scalar s, jumps, rest) := rfl

/-- An entry whose value is refused is refused. -/
theorem entriesBy_error {d : Linked} {m place : Mark} {node : Walk Node}
    {before : List (Node × Node)} {jumps fuel : Nat} {item : Item} {k : Node} {fault : Fault}
    {items items' : List PlacedItem} (hitem : item ≠ .closeMapping)
    (hk : node jumps ((item, place) :: items) = .ok (k, jumps, items'))
    (hfresh : (before.any fun e => e.1.same k) = false) (hv : node jumps items' = .error fault) :
    entriesBy d m node (fuel + 1) before jumps ((item, place) :: items) = .error fault := by
  rw [entriesBy]
  · simp only [hk, hfresh, hv, Bool.false_eq_true, if_false]
  · exact List.cons_ne_nil _ _
  · intro place' rest' h
    exact hitem (Prod.mk.inj (List.cons.inj h).1).1

/-- A mapping of a name and a plain word as a node. -/
theorem nodeAt_plainEntry (d : Linked) (name : String) (w : List Char) (m m₁ m₂ m₃ : Mark) :
    nodeAt scalarValue? d maxDepth 0
        [(.openMapping none, m), (textItem name, m₁), (.scalar none w .plain, m₂),
          (.closeMapping, m₃)] =
      match scalarOf? (String.ofList w) with
      | none => .error (.ofMark m₂)
      | some s => .ok (.mapping [(textNode name, .scalar s)], 0, []) := by
  let inner := some (nodeAt scalarValue? d 126)
  have hitem : textItem name ≠ .closeMapping := fun h => nomatch h
  have hnode (rest : List PlacedItem) :
      nodeAt scalarValue? d maxDepth 0 ((.openMapping none, m) :: rest) =
        content scalarValue? d (some (walkNode scalarValue? d inner)) (.openMapping none) m 0 rest :=
    rfl
  have hkey := walkNode_textItem d inner 0 name m₁
    [(.scalar none w .plain, m₂), (.closeMapping, m₃)]
  have hvalue := walkNode_plainItem d inner 0 w m₂ [(.closeMapping, m₃)]
  rw [hnode, content]
  cases hs : scalarOf? (String.ofList w) with
  | none =>
      rw [hs] at hvalue
      rw [entriesBy_error hitem hkey rfl hvalue]
  | some s =>
      rw [hs] at hvalue
      rw [entriesBy_cons hitem hkey rfl hvalue rfl]
      rfl

/-- **A mapping of one line is read** as what its word denotes, if that is anything. -/
theorem read_fieldLine (hname : isSimpleKey name = true) (hw : Bare w) (v : Node) :
    read (Utf8.encode (fieldLine name w)) = .ok v ↔
      ∃ s, scalarOf? (String.ofList w) = some s ∧ v = .mapping [(textNode name, .scalar s)] := by
  have hshown : AllShown (fieldLine name w) :=
    (allShown_writeScalar name).append
      (.cons rfl (.cons rfl (AllShown.append hw.plainText.shown (.of_all rfl))))
  obtain ⟨m₁, m₂, m₃, hevents⟩ := events_fieldLine hname hw
  have hitems : (Linked.ofEvents ⟨[(.mappingStart none none, .zero), (textEvent name, m₁),
      (.scalar none none w .plain, m₂), (.mappingEnd, m₃)], true, none, false⟩).items =
        [(.openMapping none, .zero), (textItem name, m₁), (.scalar none w .plain, m₂),
          (.closeMapping, m₃)] := rfl
  simp only [read, characters_of_allShown hshown, hevents, Node.ofEvents, hitems,
    nodeAt_plainEntry]
  cases scalarOf? (String.ofList w) <;> simp [eq_comm]

end Yaml

end SecretResolver
