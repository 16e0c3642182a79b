/-
**Texts for JSON and for YAML, read as JSON.**

The texts are JSON, and the reader of JSON finds the value that they denote.

Main results:

* `Interchange.Stands.json`, `Interchange.number_toDigits` — characters and numbers;
* `Interchange.valueAt_denotes` — **a value is read** before whatever cannot go on with a number;
* `Interchange.read_whole` — **a complete text is read**.
-/

import SecretResolver.Proofs.Interchange.Grammar
import SecretResolver.Proofs.Json.Written
import SecretResolver.Proofs.Text.Decimal

set_option relaxedAutoImplicit false
set_option autoImplicit false

namespace SecretResolver

namespace Interchange

open Json (Value)

variable {ws : List Char} {rest : Bytes}

/-! ### Characters -/

theorem json_hexDigit? {c : Char} {v : Nat} (h : Text.hexDigit? c = some v) :
    c.toNat < 0x80 ∧ Json.hexDigit? (UInt8.ofNat c.toNat) = some v := by
  have hle (a b : Char) : a ≤ b ↔ a.toNat ≤ b.toNat := Iff.rfl
  simp only [Text.hexDigit?, hle, Char.reduceToNat, Bool.and_eq_true, decide_eq_true_eq] at h
  have hbyte : c.toNat < 0x80 → (UInt8.ofNat c.toNat).toNat = c.toNat := by
    intro hc
    rw [UInt8.toNat_ofNat']
    omega
  have hlt : c.toNat < 0x80 := by
    split at h
    · omega
    · split at h
      · omega
      · split at h
        · omega
        · exact nomatch h
  refine ⟨hlt, ?_⟩
  simp only [Json.hexDigit?, Json.isDigit, Json.digit, UInt8.le_iff_toNat_le, hbyte hlt,
    UInt8.reduceToNat, Bool.and_eq_true, decide_eq_true_eq]
  exact h

/-- Four digits denote the same number in both formats. -/
theorem json_hexUnit {ds : List Char} {n : Nat} (hlength : ds.length = 4)
    (h : Yaml.hexNumber? ds = some n) (rest : Bytes) :
    Json.hexUnit (Utf8.encode ds ++ rest) = .ok (n, rest) := by
  match ds, hlength with
  | [a, b, c, d], _ =>
    simp only [Yaml.hexNumber?, List.foldl_cons, List.foldl_nil, Option.bind_some,
      Option.bind_eq_some_iff, Option.map_eq_some_iff] at h
    obtain ⟨n₃, ⟨n₂, ⟨n₁, ⟨va, ha, rfl⟩, vb, hb, rfl⟩, vc, hc, rfl⟩, vd, hd, rfl⟩ := h
    obtain ⟨hlta, ha⟩ := json_hexDigit? ha
    obtain ⟨hltb, hb⟩ := json_hexDigit? hb
    obtain ⟨hltc, hc⟩ := json_hexDigit? hc
    obtain ⟨hltd, hd⟩ := json_hexDigit? hd
    rw [Utf8.encode_cons_ascii hlta, Utf8.encode_cons_ascii hltb, Utf8.encode_cons_ascii hltc,
      Utf8.encode_cons_ascii hltd]
    have hnumber : ((va * 16 + vb) * 16 + vc) * 16 + vd =
        16 * (16 * (16 * (16 * 0 + va) + vb) + vc) + vd := by omega
    simp only [List.cons_append, Utf8.encode_nil, List.nil_append, Json.hexUnit, ha, hb, hc, hd,
      hnumber]

/-- What may stand for a character may do so in JSON. -/
theorem Stands.json {c : Char} {written : List Char} (h : Stands c written) :
    Json.Stands c written := by
  cases h with
  | ordinary h =>
      simp only [isOrdinary, Bool.and_eq_true, bne_iff_ne, ne_eq, decide_eq_true_eq] at h
      obtain ⟨⟨⟨⟨hcontrol, -⟩, -⟩, hquote⟩, hslash⟩ := h
      refine .inl ⟨by simp, fun b => Json.isVerbatim_of_mem_encodeChar hquote hslash hcontrol⟩
  | @letter l c h =>
      simp only [escapes, List.mem_cons, Prod.mk.injEq, List.not_mem_nil, or_false] at h
      rcases h with ⟨rfl, rfl⟩ | ⟨rfl, rfl⟩ | ⟨rfl, rfl⟩ | ⟨rfl, rfl⟩ | ⟨rfl, rfl⟩ | ⟨rfl, rfl⟩ |
        ⟨rfl, rfl⟩ | ⟨rfl, rfl⟩
      · exact .inr ⟨[34], by decide, fun _ => rfl⟩
      · exact .inr ⟨[92], by decide, fun _ => rfl⟩
      · exact .inr ⟨[47], by decide, fun _ => rfl⟩
      · exact .inr ⟨[98], by decide, fun _ => rfl⟩
      · exact .inr ⟨[102], by decide, fun _ => rfl⟩
      · exact .inr ⟨[110], by decide, fun _ => rfl⟩
      · exact .inr ⟨[114], by decide, fun _ => rfl⟩
      · exact .inr ⟨[116], by decide, fun _ => rfl⟩
  | @number c ds hlength h =>
      refine .inr ⟨117 :: Utf8.encode ds, ?_, fun rest => ?_⟩
      · rw [Utf8.encode_cons_ascii (by decide), Utf8.encode_cons_ascii (by decide)]
        rfl
      · have hunit := json_hexUnit hlength h rest
        have hc : c.toNat.isValidChar := c.valid
        have hhalf : Json.isTrailing c.toNat = false ∧ Json.isLeading c.toNat = false := by
          simp only [Json.isTrailing, Json.isLeading, Bool.and_eq_false_iff,
            decide_eq_false_iff_not]
          rcases hc with hc | hc <;> omega
        simp [Json.escape, Json.numericEscape, hunit, hhalf]

theorem json_text {s : String} {body : List Char} (h : Text.Spelled Stands s.toList body)
    (rest : Bytes) : Json.text (Utf8.encode body ++ 34 :: rest) = .ok (s, rest) :=
  Json.text_spelled (h.mono fun _ _ hc => hc.json) rest

theorem encode_quotation (body : List Char) :
    Utf8.encode (quotation body) = 34 :: (Utf8.encode body ++ [34]) := by
  rw [quotation, List.cons_append, Utf8.encode_cons_ascii (by decide), Utf8.encode_append]
  rfl

/-! ### Blanks -/

theorem skipBlanks_blanks (h : Blanks ws) (bs : Bytes) :
    Json.skipBlanks (Utf8.encode ws ++ bs) = Json.skipBlanks bs := by
  induction ws with
  | nil => rfl
  | cons c ws ih =>
      have hrec := ih fun d hd => h d (by simp [hd])
      rcases h c (by simp) with rfl | rfl | rfl | rfl
      all_goals
        rw [Utf8.encode_cons_ascii (by decide)]
        exact hrec

/-- What may follow a value: nothing with which a number could go on. -/
def Follows (rest : Bytes) : Prop :=
  ∀ b ∈ rest.head?, Json.isDigit b = false ∧ b ≠ 46 ∧ b ≠ 101 ∧ b ≠ 69

theorem follows_blanks (h : Blanks ws) (hrest : Follows rest) :
    Follows (Utf8.encode ws ++ rest) := by
  cases ws with
  | nil => exact hrest
  | cons c ws =>
      rcases h c (by simp) with rfl | rfl | rfl | rfl
      all_goals
        rw [Utf8.encode_cons_ascii (by decide)]
        rintro b ⟨⟩
        decide

/-! ### Numbers -/

/-- The bytes of digits. -/
def digitBytes (ds : List Char) : Bytes := ds.map fun d => UInt8.ofNat d.toNat

theorem toNat_digitByte {d : Char} (h : Text.isDigit d = true) :
    d.toNat < 0x80 ∧ 48 ≤ d.toNat ∧ d.toNat ≤ 57 ∧ (UInt8.ofNat d.toNat).toNat = d.toNat := by
  have hle (a b : Char) : a ≤ b ↔ a.toNat ≤ b.toNat := Iff.rfl
  simp only [Text.isDigit, hle, Char.reduceToNat, Bool.and_eq_true, decide_eq_true_eq] at h
  refine ⟨by omega, h.1, h.2, ?_⟩
  rw [UInt8.toNat_ofNat']
  omega

theorem isDigit_digitByte {d : Char} (h : Text.isDigit d = true) :
    Json.isDigit (UInt8.ofNat d.toNat) = true := by
  obtain ⟨-, hlow, hhigh, hbyte⟩ := toNat_digitByte h
  simp [Json.isDigit, UInt8.le_iff_toNat_le, hbyte, hlow, hhigh]

theorem digit_digitByte {d : Char} (h : Text.isDigit d = true) :
    Json.digit (UInt8.ofNat d.toNat) = Text.digitValue d := by
  obtain ⟨-, -, -, hbyte⟩ := toNat_digitByte h
  rw [Json.digit, hbyte]
  rfl

theorem encode_digits {ds : List Char} (h : ∀ d ∈ ds, Text.isDigit d = true) :
    Utf8.encode ds = digitBytes ds := by
  induction ds with
  | nil => rfl
  | cons d ds ih =>
      rw [Utf8.encode_cons_ascii (toNat_digitByte (h d (by simp))).1,
        ih fun e he => h e (by simp [he])]
      rfl

/-- The number that digits make after a number has been read. -/
def onward (n : Nat) (ds : List Char) : Nat := ds.foldl (fun n d => 10 * n + Text.digitValue d) n

theorem le_onward (n : Nat) (ds : List Char) : n ≤ onward n ds := by
  induction ds generalizing n with
  | nil => exact Nat.le_refl _
  | cons d ds ih =>
      have hrec : 10 * n + Text.digitValue d ≤ onward n (d :: ds) := ih _
      omega

/-- Digits are added up as long as their number fits. -/
theorem accumulate_digits {ds : List Char} (h : ∀ d ∈ ds, Text.isDigit d = true) (n : Nat)
    (hmax : onward n ds ≤ Numeral.greatestWord) :
    Json.accumulate n (digitBytes ds) = (onward n ds, []) := by
  induction ds generalizing n with
  | nil => rfl
  | cons d ds ih =>
      have hd := digit_digitByte (h d (by simp))
      have hnext : onward n (d :: ds) = onward (n * 10 + Text.digitValue d) ds := by
        rw [onward, List.foldl_cons, Nat.mul_comm 10 n]
        rfl
      rw [hnext] at hmax ⊢
      have hle := le_onward (n * 10 + Text.digitValue d) ds
      have hfits : ¬ Numeral.greatestWord < n * 10 + Json.digit (UInt8.ofNat d.toNat) := by
        rw [hd]
        omega
      rw [digitBytes, List.map_cons, Json.accumulate, if_neg hfits, hd]
      exact ih (fun e he => h e (by simp [he])) _ hmax

theorem digits_append {ds : List Char} (h : ∀ d ∈ ds, Text.isDigit d = true)
    (hrest : Follows rest) : Json.digits (digitBytes ds ++ rest) = (digitBytes ds, rest) := by
  have hall : ∀ b ∈ digitBytes ds, Json.isDigit b = true := by
    intro b hb
    obtain ⟨d, hd, rfl⟩ := List.mem_map.1 hb
    exact isDigit_digitByte (h d hd)
  cases rest with
  | nil =>
      rw [Json.digits, List.takeWhile_append_of_pos hall, List.dropWhile_append_of_pos hall]
      simp
  | cons b rest =>
      have hb := (hrest b rfl).1
      rw [Json.digits, List.takeWhile_append_of_pos hall, List.dropWhile_append_of_pos hall]
      simp [hb]

theorem numberTail_follows (negative : Bool) (n : Nat) (hrest : Follows rest) :
    Json.numberTail negative n 0 rest = .ok (Json.whole? negative n, rest) := by
  cases rest with
  | nil => rfl
  | cons b rest =>
      obtain ⟨-, hpoint, hsmall, hbig⟩ := hrest b rfl
      rw [Json.numberTail]
      · rfl
      all_goals
        rintro bs ⟨⟩
        contradiction

/-- The digits of a number are added up, and what follows them says what the number is. -/
theorem number_digits (negative : Bool) {n : Nat} (hn : n ≠ 0) (hrest : Follows rest) :
    ∃ d ds, (∀ e ∈ ds, Text.isDigit e = true) ∧ Text.digitValue d ≤ 9 ∧
      onward (Text.digitValue d) ds = n ∧
      Json.number negative (Utf8.encode (Nat.toDigits 10 n) ++ rest) =
        Json.numberTail negative (Json.accumulate (Text.digitValue d) (digitBytes ds)).1
          (Json.accumulate (Text.digitValue d) (digitBytes ds)).2.length rest := by
  have hdigits : ∀ d ∈ Nat.toDigits 10 n, Text.isDigit d = true :=
    fun d => Text.isDigit_of_mem_toDigits
  have hvalue : onward 0 (Nat.toDigits 10 n) = n := Text.ofDigits_toDigits n
  have hhead := Text.head?_toDigits hn
  obtain ⟨d, ds, hds⟩ := List.exists_cons_of_ne_nil (Nat.toDigits_ne_nil (b := 10) (n := n))
  rw [encode_digits hdigits]
  rw [hds] at hdigits hvalue hhead ⊢
  have hd := hdigits d (by simp)
  have hds' : ∀ e ∈ ds, Text.isDigit e = true := fun e he => hdigits e (by simp [he])
  obtain ⟨-, -, hnine, hbyte⟩ := toNat_digitByte hd
  have hne : UInt8.ofNat d.toNat ≠ 48 := by
    intro heq
    rw [heq] at hbyte
    have hzero : d = '0' := Char.toNat_inj.1 hbyte.symm
    exact hhead (by rw [hzero]; rfl)
  have hdigit : Text.digitValue d ≤ 9 := by
    simp only [Text.digitValue, Char.reduceToNat]
    omega
  refine ⟨d, ds, hds', hdigit, ?_, ?_⟩
  · have hfirst : onward 0 (d :: ds) = onward (Text.digitValue d) ds := by
      rw [onward, List.foldl_cons, Nat.mul_zero, Nat.zero_add]
      rfl
    rw [← hfirst, hvalue]
  · rw [digitBytes, List.map_cons, List.cons_append, Json.number]
    · have hsplit := digits_append hds' hrest
      rw [digitBytes] at hsplit
      simp only [isDigit_digitByte hd, Bool.not_true, Bool.false_eq_true, if_false, hsplit,
        digit_digitByte hd]
      rfl
    · exact hne

theorem number_zero (negative : Bool) (hrest : Follows rest) :
    Json.number negative (Utf8.encode (Nat.toDigits 10 0) ++ rest) =
      .ok (Json.whole? negative 0, rest) := by
  have hencode : Utf8.encode (Nat.toDigits 10 0) ++ rest = 48 :: rest := rfl
  rw [hencode]
  cases rest with
  | nil => rfl
  | cons b rest =>
      have hb := (hrest b rfl).1
      rw [Json.number]
      simp only [hb, Bool.false_eq_true, if_false]
      exact numberTail_follows negative 0 hrest

/-- **The digits of a number are read** after its sign. -/
theorem number_toDigits (negative : Bool) {n : Nat} (hn : n ≤ Numeral.greatestWord)
    (hrest : Follows rest) :
    Json.number negative (Utf8.encode (Nat.toDigits 10 n) ++ rest) =
      .ok (Json.whole? negative n, rest) := by
  by_cases hzero : n = 0
  · subst hzero
    exact number_zero negative hrest
  · obtain ⟨d, ds, hds, -, hvalue, hnumber⟩ := number_digits negative hzero hrest
    rw [hnumber, accumulate_digits hds _ (by rw [hvalue]; exact hn), hvalue]
    exact numberTail_follows negative n hrest

/-! ### Values -/

theorem valueAt_blanks (h : Blanks ws) (depth : Nat) (bs : Bytes) :
    Json.valueAt depth (Utf8.encode ws ++ bs) = Json.valueAt depth bs := by
  cases depth <;> simp only [Json.valueAt, skipBlanks_blanks h]

theorem skipBlanks_cons {b : UInt8} (hb : Json.isBlank b = false) (bs : Bytes) :
    Json.skipBlanks (b :: bs) = b :: bs := by
  simp [Json.skipBlanks, hb]

/-- Scalars are read whatever the depth. -/
theorem valueAt_scalar {b : UInt8} {bs : Bytes} {r : Except Json.Fault (Value × Bytes)}
    (hb : Json.isBlank b = false) (h : Json.scalarAfter? b bs = some r) (depth : Nat) :
    Json.valueAt depth (b :: bs) = r := by
  have hbracket : b ≠ 91 := by
    rintro rfl
    exact nomatch h
  have hbrace : b ≠ 123 := by
    rintro rfl
    exact nomatch h
  cases depth with
  | zero => simp only [Json.valueAt, skipBlanks_cons hb, h, Option.getD_some]
  | succ depth =>
      rw [Json.valueAt, skipBlanks_cons hb]
      split
      · exact absurd ‹b :: bs = []› (List.cons_ne_nil b bs)
      · exact absurd (List.cons.inj ‹b :: bs = _›).1 hbracket
      · exact absurd (List.cons.inj ‹b :: bs = _›).1 hbrace
      · obtain ⟨rfl, rfl⟩ := List.cons.inj ‹b :: bs = _›
        rw [h, Option.getD_some]

/-- The text of an integer is read as a number after its sign. -/
theorem valueAt_toString (n : Int) (rest : Bytes) (depth : Nat) :
    Json.valueAt depth (Utf8.encode (toString n).toList ++ rest) =
      Json.mapResult .number
        (Json.number (decide (n < 0)) (Utf8.encode (Nat.toDigits 10 n.natAbs) ++ rest)) := by
  rw [Text.toList_toString]
  by_cases hneg : n < 0
  · rw [if_pos hneg, Utf8.encode_append, List.append_assoc, Utf8.encode_cons_ascii (by decide),
      decide_eq_true hneg]
    exact valueAt_scalar (by decide) rfl depth
  · have hdigits : ∀ d ∈ Nat.toDigits 10 n.natAbs, Text.isDigit d = true :=
      fun d => Text.isDigit_of_mem_toDigits
    rw [if_neg hneg, List.nil_append, decide_eq_false hneg, encode_digits hdigits]
    cases hds : Nat.toDigits 10 n.natAbs with
    | nil => exact absurd hds Nat.toDigits_ne_nil
    | cons d ds =>
        rw [hds] at hdigits
        have hd := isDigit_digitByte (hdigits d (by simp))
        have hrange := hd
        simp only [Json.isDigit, Bool.and_eq_true, decide_eq_true_eq, UInt8.le_iff_toNat_le,
          UInt8.reduceToNat] at hrange
        have hne (k : UInt8) (hk : k.toNat < 48 ∨ 57 < k.toNat) : UInt8.ofNat d.toNat ≠ k := by
          rintro heq
          rw [heq] at hrange
          omega
        have hblank : Json.isBlank (UInt8.ofNat d.toNat) = false := by
          simp [Json.isBlank, hne 32 (by decide), hne 10 (by decide), hne 9 (by decide),
            hne 13 (by decide)]
        refine valueAt_scalar hblank ?_ depth
        rw [Json.scalarAfter?, if_pos hd]
        · rfl
        · exact hne 110 (by decide)
        · exact hne 116 (by decide)
        · exact hne 102 (by decide)
        · exact hne 34 (by decide)
        · exact hne 45 (by decide)

theorem valueAt_integer {n : Int} (hn : Yaml.isWord n = true) (hrest : Follows rest)
    (depth : Nat) :
    Json.valueAt depth (Utf8.encode (toString n).toList ++ rest) =
      .ok (.number (.integer n), rest) := by
  simp only [Yaml.isWord, Bool.and_eq_true, decide_eq_true_eq] at hn
  have hmax : n.natAbs ≤ Numeral.greatestWord := by
    rw [Numeral.greatestWord]
    omega
  have hwhole : Json.whole? (decide (n < 0)) n.natAbs = .integer n := by
    by_cases hneg : n < 0
    · have hfits : n.natAbs ≠ 0 ∧ n.natAbs ≤ 0x8000000000000000 := by omega
      have habs : -(n.natAbs : Int) = n := by omega
      simp only [Json.whole?, decide_eq_true hneg, Bool.not_true, Bool.false_eq_true, if_false,
        if_pos hfits, habs]
    · have habs : (n.natAbs : Int) = n := by omega
      simp only [Json.whole?, decide_eq_false hneg, Bool.not_false, if_true, habs]
  rw [valueAt_toString, number_toDigits _ hmax hrest, hwhole]
  rfl

/-- Some bytes begin with one that is no blank and closes nothing. -/
def Begins (bs : Bytes) : Prop :=
  ∃ b bs', bs = b :: bs' ∧ Json.isBlank b = false ∧ b ≠ 93 ∧ b ≠ 125

theorem begins_encode {c : Char} (hc : c.toNat < 0x80) (cs : List Char) (bs : Bytes)
    (h : Json.isBlank (UInt8.ofNat c.toNat) = false ∧ UInt8.ofNat c.toNat ≠ 93 ∧
      UInt8.ofNat c.toNat ≠ 125) : Begins (Utf8.encode (c :: cs) ++ bs) := by
  rw [Utf8.encode_cons_ascii hc]
  exact ⟨_, _, rfl, h⟩

theorem begins_denotes {depth : Nat} {v : Value} {cs : List Char} (h : Denotes depth v cs)
    (bs : Bytes) : Begins (Utf8.encode cs ++ bs) := by
  cases h with
  | null => exact begins_encode (by decide) _ bs (by decide)
  | flag depth b => cases b <;> exact begins_encode (by decide) _ bs (by decide)
  | text => exact begins_encode (by decide) _ bs (by decide)
  | array => exact begins_encode (by decide) _ bs (by decide)
  | object => exact begins_encode (by decide) _ bs (by decide)
  | @integer depth n hn =>
      rw [Text.toList_toString]
      split
      · exact begins_encode (by decide) _ bs (by decide)
      · cases hds : Nat.toDigits 10 n.natAbs with
        | nil => exact absurd hds Nat.toDigits_ne_nil
        | cons d ds =>
            have hd : Text.isDigit d = true :=
              Text.isDigit_of_mem_toDigits (n := n.natAbs) (by simp [hds])
            obtain ⟨hascii, hlow, hhigh, hbyte⟩ := toNat_digitByte hd
            have hne (k : UInt8) (hk : k.toNat < 48 ∨ 57 < k.toNat) : UInt8.ofNat d.toNat ≠ k := by
              rintro heq
              rw [← heq, hbyte] at hk
              omega
            refine begins_encode hascii ds bs ⟨?_, hne 93 (by decide), hne 125 (by decide)⟩
            simp [Json.isBlank, hne 32 (by decide), hne 10 (by decide), hne 9 (by decide),
              hne 13 (by decide)]

/-! ### Arrays and objects -/

variable {depth : Nat} {first : Bool} {lead : List Char}

theorem skipBlanks_begins {bs : Bytes} (h : Begins bs) : Json.skipBlanks bs = bs := by
  obtain ⟨b, bs, rfl, hb, -⟩ := h
  exact skipBlanks_cons hb bs

theorem skipBlanks_comma (bs : Bytes) : Json.skipBlanks (44 :: bs) = 44 :: bs :=
  skipBlanks_cons (by decide) bs

theorem encode_comma (ws : List Char) : Utf8.encode (',' :: ws) = 44 :: Utf8.encode ws :=
  Utf8.encode_cons_ascii (by decide) ws

/-- An item is read after what stands before it. -/
theorem items_lead {α : Type} {item : Json.Reader α} {bs : Bytes} {x : α} (hlead : Lead first lead)
    (hbs : Begins bs) (hitem : item bs = .ok (x, rest)) (fuel : Nat) :
    Json.items item (fuel + 1) first (Utf8.encode lead ++ bs) =
      Json.mapResult (x :: ·) (Json.items item fuel false rest) := by
  have hskip := skipBlanks_begins hbs
  obtain ⟨b, bs, rfl, hb, hclose, -⟩ := hbs
  cases hlead with
  | first =>
      simp only [Json.items, Utf8.encode_nil, List.nil_append, hskip, hitem]
      cases Json.items item fuel false rest <;> simp [Json.mapResult]
  | @comma ws hws =>
      rw [encode_comma, List.cons_append]
      simp [Json.items, skipBlanks_comma, skipBlanks_blanks hws, hskip]
      split
      · exact absurd ‹b :: bs = []› (List.cons_ne_nil b bs)
      · exact absurd (List.cons.inj ‹b :: bs = _›).1 hclose
      · rw [hitem]
        dsimp only
        cases Json.items item fuel false rest <;> rfl

/-- What stands before the closing bracket does not go on with a number. -/
theorem follows_items {vs : List Value} {body : List Char} (h : Items depth false vs body)
    (rest : Bytes) : Follows (Utf8.encode body ++ 93 :: rest) := by
  cases h with
  | done =>
      rintro b ⟨⟩
      decide
  | more hlead =>
      cases hlead
      rw [List.cons_append, Utf8.encode_cons_ascii (by decide)]
      rintro b ⟨⟩
      decide

theorem follows_members {ms : List (String × Value)} {body : List Char}
    (h : Members depth false ms body) (rest : Bytes) :
    Follows (Utf8.encode body ++ 125 :: rest) := by
  cases h with
  | done =>
      rintro b ⟨⟩
      decide
  | more hlead =>
      cases hlead
      rw [List.cons_append, Utf8.encode_cons_ascii (by decide)]
      rintro b ⟨⟩
      decide

theorem items_blanks {α : Type} (hws : Blanks ws) (item : Json.Reader α) (fuel : Nat)
    (bs : Bytes) :
    Json.items item (fuel + 1) first (Utf8.encode ws ++ bs) =
      Json.items item (fuel + 1) first bs := by
  simp only [Json.items, skipBlanks_blanks hws]

theorem memberName?_lead {name : String} {spelled : List Char} (hlead : Lead first lead)
    (hname : Text.Spelled Stands name.toList spelled) (rest : Bytes) :
    Json.memberName? first (Utf8.encode lead ++ (Utf8.encode (quotation spelled) ++ rest)) =
      .ok (some name, rest) := by
  have hquote : Utf8.encode (quotation spelled) ++ rest =
      34 :: (Utf8.encode spelled ++ 34 :: rest) := by
    rw [encode_quotation]
    simp
  have hskip : Json.skipBlanks (34 :: (Utf8.encode spelled ++ 34 :: rest)) =
      34 :: (Utf8.encode spelled ++ 34 :: rest) := skipBlanks_cons (by decide) _
  have htext := json_text hname rest
  rw [hquote]
  cases hlead with
  | first => simp [Json.memberName?, hskip, htext]
  | @comma ws hws =>
      rw [encode_comma, List.cons_append]
      simp [Json.memberName?, skipBlanks_comma, skipBlanks_blanks hws, hskip, htext]

theorem colon_gap {gap : List Char} (hgap : Inline gap) (rest : Bytes) :
    Json.colon (Utf8.encode gap ++ 58 :: rest) = .ok rest := by
  rw [Json.colon, skipBlanks_blanks hgap.blanks, skipBlanks_cons (by decide)]
  rfl

theorem members_blanks {α : Type} (hws : Blanks ws) (item : Json.Reader α) (fuel : Nat)
    (bs : Bytes) :
    Json.members item (fuel + 1) first (Utf8.encode ws ++ bs) =
      Json.members item (fuel + 1) first bs := by
  simp only [Json.members, Json.memberName?, skipBlanks_blanks hws]

theorem length_pos_denotes {v : Value} {cs : List Char} (h : Denotes depth v cs) :
    0 < cs.length := by
  obtain ⟨b, bs, hb, -⟩ := begins_denotes h []
  cases cs with
  | nil => exact nomatch hb
  | cons c cs => exact Nat.succ_pos _

theorem length_le_items {first : Bool} {vs : List Value} {body : List Char} :
    Items depth first vs body → vs.length ≤ body.length
  | .done _ _ => Nat.le_refl _
  | .more _ hv _ h => by
      have hrec := length_le_items h
      have hpos := length_pos_denotes hv
      simp only [List.length_append, List.length_cons]
      omega

theorem length_le_members {first : Bool} {ms : List (String × Value)} {body : List Char} :
    Members depth first ms body → ms.length ≤ body.length
  | .done _ _ => Nat.le_refl _
  | .more _ _ _ _ _ _ _ h => by
      have hrec := length_le_members h
      simp only [List.length_append, List.length_cons]
      omega

mutual

/-- **A value is read** before whatever cannot go on with a number. -/
theorem valueAt_denotes {depth : Nat} {v : Value} {cs : List Char} :
    Denotes depth v cs → ∀ {rest : Bytes}, Follows rest →
      Json.valueAt depth (Utf8.encode cs ++ rest) = .ok (v, rest)
  | .null depth, rest, _ => valueAt_scalar (by decide) rfl depth
  | .flag depth true, rest, _ => valueAt_scalar (by decide) rfl depth
  | .flag depth false, rest, _ => valueAt_scalar (by decide) rfl depth
  | .integer depth hn, rest, hrest => valueAt_integer hn hrest depth
  | .text depth h, rest, _ => by
      rw [encode_quotation, List.cons_append, List.append_assoc]
      refine valueAt_scalar (by decide) ?_ depth
      exact congrArg (some ∘ Json.mapResult Value.text) (json_text h rest)
  | @Denotes.array depth ws body vs hws h, rest, hrest => by
      have hlength := length_le_items h
      have hbytes := Utf8.length_le_encode body
      have hitems := items_denotes h rest
        ((Utf8.encode ws ++ (Utf8.encode body ++ 93 :: rest)).length + 1)
        (by simp only [List.length_append]; omega)
      have hencode : Utf8.encode ('[' :: (ws ++ body ++ [']'])) ++ rest =
          91 :: (Utf8.encode ws ++ (Utf8.encode body ++ 93 :: rest)) := by
        rw [Utf8.encode_cons_ascii (by decide), Utf8.encode_append, Utf8.encode_append]
        simp only [List.append_assoc, List.cons_append]
        rfl
      rw [hencode, Json.valueAt, skipBlanks_cons (by decide)]
      rw [← items_blanks hws] at hitems
      exact congrArg (Json.mapResult Value.array) hitems
  | @Denotes.object depth ws body ms hws h hnames, rest, hrest => by
      have hlength := length_le_members h
      have hbytes := Utf8.length_le_encode body
      have hmembers := members_denotes h rest
        ((Utf8.encode ws ++ (Utf8.encode body ++ 125 :: rest)).length + 1)
        (by simp only [List.length_append]; omega)
      have hencode : Utf8.encode ('\x7b' :: (ws ++ body ++ ['\x7d'])) ++ rest =
          123 :: (Utf8.encode ws ++ (Utf8.encode body ++ 125 :: rest)) := by
        rw [Utf8.encode_cons_ascii (by decide), Utf8.encode_append, Utf8.encode_append]
        simp only [List.append_assoc, List.cons_append]
        rfl
      rw [hencode, Json.valueAt, skipBlanks_cons (by decide)]
      rw [← members_blanks hws] at hmembers
      exact congrArg (Json.mapResult Value.object) hmembers

theorem items_denotes {depth : Nat} {first : Bool} {vs : List Value} {body : List Char} :
    Items depth first vs body → ∀ (rest : Bytes) (fuel : Nat), vs.length < fuel →
      Json.items (Json.valueAt depth) fuel first (Utf8.encode body ++ 93 :: rest) = .ok (vs, rest)
  | .done depth first, rest, fuel + 1, _ => by
      rw [Json.items, Utf8.encode_nil, List.nil_append, skipBlanks_cons (by decide)]
      rfl
  | @Items.more depth first v vs lead cs ws body hlead hv hws h, rest, fuel + 1, hfuel => by
      rw [List.length_cons] at hfuel
      have hitem := valueAt_denotes hv (follows_blanks hws (follows_items h rest))
      obtain ⟨fuel, rfl⟩ : ∃ n, fuel = n + 1 := ⟨fuel - 1, by omega⟩
      have hrest := items_denotes h rest (fuel + 1) (by omega)
      rw [Utf8.encode_append, Utf8.encode_append, Utf8.encode_append, List.append_assoc,
        List.append_assoc, List.append_assoc,
        items_lead hlead (begins_denotes hv _) hitem, items_blanks hws, hrest]
      rfl

theorem members_denotes {depth : Nat} {first : Bool} {ms : List (String × Value)}
    {body : List Char} :
    Members depth first ms body → ∀ (rest : Bytes) (fuel : Nat), ms.length < fuel →
      Json.members (Json.valueAt depth) fuel first (Utf8.encode body ++ 125 :: rest) =
        .ok (ms, rest)
  | .done depth first, rest, fuel + 1, _ => by
      rw [Json.members, Json.memberName?, Utf8.encode_nil, List.nil_append,
        skipBlanks_cons (by decide)]
      rfl
  | @Members.more depth first name v ms lead spelled gap before cs ws body hlead hname hgap _
      hbefore hv hws h, rest, fuel + 1, hfuel => by
      rw [List.length_cons] at hfuel
      obtain ⟨fuel, rfl⟩ : ∃ n, fuel = n + 1 := ⟨fuel - 1, by omega⟩
      have hitem := valueAt_denotes hv (follows_blanks hws (follows_members h rest))
      have hrest := members_denotes h rest (fuel + 1) (by omega)
      have hcolon : Utf8.encode (':' :: (before ++ (cs ++ (ws ++ body)))) =
          58 :: (Utf8.encode before ++
            (Utf8.encode cs ++ (Utf8.encode ws ++ Utf8.encode body))) := by
        rw [Utf8.encode_cons_ascii (by decide), Utf8.encode_append, Utf8.encode_append,
          Utf8.encode_append]
        rfl
      rw [Utf8.encode_append, Utf8.encode_append, Utf8.encode_append, hcolon]
      simp only [List.append_assoc, List.cons_append]
      rw [← valueAt_blanks hbefore] at hitem
      rw [Json.members_of_parts (memberName?_lead hlead hname _) (colon_gap hgap _) hitem,
        members_blanks hws, hrest]
      rfl

end

/-- **A complete text is read.** -/
theorem read_whole {v : Value} {cs : List Char} (h : Whole v cs) :
    Json.read (Utf8.encode cs) = .ok v := by
  obtain ⟨hbefore, h, hafter⟩ := h
  rename_i before cs after
  have hend : Follows [] := by rintro b ⟨⟩
  have hfollows : Follows (Utf8.encode after) := by
    have hblanks := follows_blanks hafter.1 hend
    rwa [List.append_nil] at hblanks
  have hskip : Json.skipBlanks (Utf8.encode after) = [] := by
    have hblanks := skipBlanks_blanks hafter.1 []
    rwa [List.append_nil] at hblanks
  rw [Json.read, Json.whole, Utf8.encode_append, Utf8.encode_append,
    valueAt_blanks hbefore.blanks, valueAt_denotes h hfollows]
  simp only [hskip]

end Interchange

end SecretResolver
