/-
**Reading what was written as JSON.**

A text between quotes is read back as that text, whatever comes after its closing quote: each of
its characters stands there as itself or as an escape, and only the quote and the backslash end
what stands for itself.  An object of texts is then read back member by member.

Main definitions:

* `Json.isVerbatim` — the bytes that stand for themselves within quotes;
* `Json.Stands` — what may stand for a character within quotes;
* `Json.textMember`, `Json.textValues` — members whose values are texts.

Main results:

* `Json.stands_writeChar` — a character is written as itself or as an escape;
* `Json.quoted_spelled`, `Json.valueAt_writeText` — **a text is read back**;
* `Json.valueAt_writeMembers`, `Json.read_writeMembers` — **an object of texts is read back**.
-/

import SecretResolver.Json.Reader
import SecretResolver.Json.Writer
import SecretResolver.Proofs.Text.Spelled
import SecretResolver.Proofs.Text.Utf8

set_option relaxedAutoImplicit false
set_option autoImplicit false

namespace SecretResolver

namespace Json

/-! ### Bytes that stand for themselves -/

/-- The bytes that stand for themselves within quotes. -/
def isVerbatim (b : UInt8) : Bool := b != 34 && b != 92 && 32 ≤ b

theorem isVerbatim_of_mem_encodeChar {c : Char} {b : UInt8} (hquote : c ≠ '"') (hslash : c ≠ '\\')
    (hcontrol : 32 ≤ c.toNat) (hb : b ∈ String.utf8EncodeChar c) : isVerbatim b = true := by
  suffices b.toNat ≠ 34 ∧ b.toNat ≠ 92 ∧ 32 ≤ b.toNat by
    simpa [isVerbatim, ← UInt8.toNat_inj, UInt8.le_iff_toNat_le, and_assoc] using this
  by_cases hc : c.toNat < 0x80
  · rw [Utf8.encodeChar_of_ascii hc, List.mem_singleton] at hb
    have hbyte : b.toNat = c.toNat := by
      rw [hb, UInt8.toNat_ofNat']
      omega
    have hne (d : Char) (hd : c ≠ d) : c.toNat ≠ d.toNat := fun h => hd (Char.toNat_inj.1 h)
    have h34 : c.toNat ≠ 34 := hne '"' hquote
    have h92 : c.toNat ≠ 92 := hne '\\' hslash
    omega
  · have hbyte := Utf8.le_of_mem_encodeChar (by omega) hb
    omega

theorem mapResult_mapResult {α β γ : Type} (f : α → β) (g : β → γ)
    (r : Except Fault (α × Bytes)) :
    mapResult g (mapResult f r) = mapResult (fun x => g (f x)) r := by
  cases r <;> rfl

theorem mapResult_id {α : Type} (r : Except Fault (α × Bytes)) : mapResult (fun x => x) r = r := by
  cases r <;> rfl

theorem quoted_cons {b : UInt8} (fuel : Nat) (rest : Bytes) (hb : isVerbatim b = true) :
    quoted (fuel + 1) (b :: rest) = mapResult (b :: ·) (quoted fuel rest) := by
  simp only [isVerbatim, Bool.and_eq_true, bne_iff_ne, ne_eq, decide_eq_true_eq] at hb
  have hcontrol : ¬ b < 32 := UInt8.not_lt.2 hb.2
  rw [quoted]
  · rw [if_neg hcontrol]
    cases quoted fuel rest <;> rfl
  · exact hb.1.1
  · exact hb.1.2

theorem quoted_append {bs : Bytes} (fuel : Nat) (rest : Bytes)
    (hbs : ∀ b ∈ bs, isVerbatim b = true) :
    quoted (fuel + bs.length) (bs ++ rest) = mapResult (bs ++ ·) (quoted fuel rest) := by
  induction bs with
  | nil => exact (mapResult_id _).symm
  | cons b bs ih =>
      rw [List.length_cons, ← Nat.add_assoc, List.cons_append, quoted_cons _ _ (hbs b (by simp)),
        ih fun b hb => hbs b (List.mem_cons_of_mem _ hb), mapResult_mapResult]
      rfl

/-! ### Escapes -/

theorem quoted_escape {c : Char} {bs rest : Bytes} (fuel : Nat)
    (h : escape (bs ++ rest) = .ok (c, rest)) :
    quoted (fuel + 1) (92 :: bs ++ rest) =
      mapResult (String.utf8EncodeChar c ++ ·) (quoted fuel rest) := by
  rw [List.cons_append, quoted, h]
  dsimp only
  cases quoted fuel rest <;> rfl

theorem hexDigit?_hexDigit : ∀ n < 16, hexDigit? (UInt8.ofNat (hexDigit n).toNat) = some n := by
  decide

theorem toNat_hexDigit_lt : ∀ n < 16, (hexDigit n).toNat < 0x80 := by
  decide

/-- The numeric escape of a control character. -/
theorem escape_hexDigits {c : Char} (hc : c.toNat < 32) (rest : Bytes) :
    escape (117 :: 48 :: 48 :: UInt8.ofNat (hexDigit (c.toNat / 16)).toNat ::
      UInt8.ofNat (hexDigit (c.toNat % 16)).toNat :: rest) = .ok (c, rest) := by
  have hzero : hexDigit? 48 = some 0 := by decide
  have hn : ((0 * 16 + 0) * 16 + c.toNat / 16) * 16 + c.toNat % 16 = c.toNat := by omega
  have hunit : hexUnit (48 :: 48 :: UInt8.ofNat (hexDigit (c.toNat / 16)).toNat ::
      UInt8.ofNat (hexDigit (c.toNat % 16)).toNat :: rest) = .ok (c.toNat, rest) := by
    simp only [hexUnit, hexDigit?_hexDigit (c.toNat / 16) (by omega),
      hexDigit?_hexDigit (c.toNat % 16) (by omega), hzero, hn]
  have hhalf : isTrailing c.toNat = false ∧ isLeading c.toNat = false := by
    simp [isTrailing, isLeading]
    omega
  simp [escape, numericEscape, hunit, hhalf]

/-- What may stand in a text for a character is either the character itself or an escape. -/
def Stands (c : Char) (written : List Char) : Prop :=
  (Utf8.encode written = String.utf8EncodeChar c ∧
    ∀ b ∈ String.utf8EncodeChar c, isVerbatim b = true) ∨
  ∃ bs, Utf8.encode written = 92 :: bs ∧ ∀ rest, escape (bs ++ rest) = .ok (c, rest)

theorem stands_writeChar (c : Char) : Stands c (writeChar c) := by
  unfold writeChar
  split
  · exact .inr ⟨[34], by decide, fun _ => rfl⟩
  · exact .inr ⟨[92], by decide, fun _ => rfl⟩
  · exact .inr ⟨[98], by decide, fun _ => rfl⟩
  · exact .inr ⟨[102], by decide, fun _ => rfl⟩
  · exact .inr ⟨[110], by decide, fun _ => rfl⟩
  · exact .inr ⟨[114], by decide, fun _ => rfl⟩
  · exact .inr ⟨[116], by decide, fun _ => rfl⟩
  · rename_i hquote hslash _ _ _ _ _
    split
    · rename_i hc
      have hhigh := toNat_hexDigit_lt (c.toNat / 16) (by omega)
      have hlow := toNat_hexDigit_lt (c.toNat % 16) (by omega)
      refine .inr ⟨[117, 48, 48, UInt8.ofNat (hexDigit (c.toNat / 16)).toNat,
        UInt8.ofNat (hexDigit (c.toNat % 16)).toNat], ?_, fun rest => escape_hexDigits hc rest⟩
      rw [Utf8.encode_cons_ascii (by decide), Utf8.encode_cons_ascii (by decide),
        Utf8.encode_cons_ascii (by decide), Utf8.encode_cons_ascii (by decide),
        Utf8.encode_cons_ascii hhigh, Utf8.encode_cons_ascii hlow]
      rfl
    · exact .inl ⟨by simp, fun b => isVerbatim_of_mem_encodeChar hquote hslash (by omega)⟩

/-! ### Texts -/

/-- **A text is read back** from what stands between its quotes, whatever comes after them. -/
theorem quoted_spelled {cs written : List Char} (h : Text.Spelled Stands cs written) {fuel : Nat}
    (rest : Bytes) (hfuel : (Utf8.encode written).length < fuel) :
    quoted fuel (Utf8.encode written ++ 34 :: rest) = .ok (Utf8.encode cs, rest) := by
  induction h generalizing fuel with
  | nil =>
      obtain ⟨fuel, rfl⟩ : ∃ f, fuel = f + 1 := ⟨fuel - 1, by simp at hfuel; omega⟩
      rfl
  | @cons c cs spelled written hc _ ih =>
      rw [Utf8.encode_append, List.length_append] at hfuel
      rw [Utf8.encode_append, List.append_assoc, Utf8.encode_cons]
      rcases hc with ⟨hc, hverbatim⟩ | ⟨bs, hc, hescape⟩
      · rw [hc] at hfuel ⊢
        obtain ⟨f, rfl⟩ : ∃ f, fuel = f + (String.utf8EncodeChar c).length :=
          ⟨fuel - (String.utf8EncodeChar c).length, by omega⟩
        rw [quoted_append _ _ hverbatim, ih (by omega)]
        rfl
      · rw [hc, List.length_cons] at hfuel
        obtain ⟨f, rfl⟩ : ∃ f, fuel = f + 1 := ⟨fuel - 1, by omega⟩
        rw [hc, quoted_escape f (hescape _), ih (by omega)]
        rfl

/-- A text that stands between quotes. -/
theorem text_spelled {s : String} {written : List Char}
    (h : Text.Spelled Stands s.toList written) (rest : Bytes) :
    text (Utf8.encode written ++ 34 :: rest) = .ok (s, rest) := by
  have htext : Utf8.text? (Utf8.encode s.toList) = some s := Utf8.text?_ofString s
  rw [text, quoted_spelled h rest (by rw [List.length_append]; omega)]
  simp only [htext]

theorem encode_writeText (s : String) :
    Utf8.encode (writeText s) = 34 :: (Utf8.encode (s.toList.flatMap writeChar) ++ [34]) := by
  rw [writeText, List.cons_append, Utf8.encode_cons_ascii (by decide), Utf8.encode_append]
  rfl

theorem text_writeText (s : String) (rest : Bytes) :
    text (Utf8.encode (s.toList.flatMap writeChar) ++ 34 :: rest) = .ok (s, rest) :=
  text_spelled (Text.spelled_flatMap fun c _ => stands_writeChar c) rest

theorem skipBlanks_quote (bs : Bytes) : skipBlanks (34 :: bs) = 34 :: bs := rfl

theorem valueAt_writeText (depth : Nat) (s : String) (rest : Bytes) :
    valueAt depth (Utf8.encode (writeText s) ++ rest) = .ok (.text s, rest) := by
  rw [encode_writeText, List.cons_append, List.append_assoc, List.singleton_append]
  cases depth <;> simp [valueAt, skipBlanks_quote, scalarAfter?, text_writeText, mapResult]

/-- A document that is a text. -/
theorem read_writeText (s : String) : read (Utf8.encode (writeText s)) = .ok (.text s) := by
  have h := valueAt_writeText maxDepth s []
  rw [List.append_nil] at h
  rw [read, whole, h]
  rfl

/-! ### Objects -/

theorem separate_cons (sep p : List Char) (ps : List (List Char)) :
    separate sep (p :: ps) = p ++ ps.flatMap (sep ++ ·) := by
  induction ps generalizing p with
  | nil => simp [separate]
  | cons q ps ih => rw [separate, ih, List.flatMap_cons, List.append_assoc, List.append_assoc]

/-- A member whose value is a text. -/
def textMember (e : String × String) : List Char := writeMember e.1 (writeText e.2)

/-- The values that texts with names are. -/
def textValues (es : List (String × String)) : List (String × Value) :=
  es.map fun e => (e.1, .text e.2)

theorem encode_textMember (e : String × String) :
    Utf8.encode (textMember e) = 34 :: (Utf8.encode (e.1.toList.flatMap writeChar) ++
      34 :: 58 :: Utf8.encode (writeText e.2)) := by
  rw [textMember, writeMember, Utf8.encode_append, encode_writeText,
    Utf8.encode_cons_ascii (by decide), List.cons_append, List.append_assoc]
  rfl

theorem memberName?_first (e : String × String) (rest : Bytes) :
    memberName? true (Utf8.encode (textMember e) ++ rest) =
      .ok (some e.1, 58 :: (Utf8.encode (writeText e.2) ++ rest)) := by
  rw [encode_textMember, List.cons_append, List.append_assoc, memberName?, skipBlanks_quote]
  simp [text_writeText]

theorem memberName?_next (e : String × String) (rest : Bytes) :
    memberName? false (44 :: (Utf8.encode (textMember e) ++ rest)) =
      .ok (some e.1, 58 :: (Utf8.encode (writeText e.2) ++ rest)) := by
  have hcomma (bs : Bytes) : skipBlanks (44 :: bs) = 44 :: bs := rfl
  rw [encode_textMember, List.cons_append, List.append_assoc, memberName?, hcomma]
  simp [skipBlanks_quote, text_writeText]

/-- A member is its name, a colon and its value. -/
theorem members_of_parts {α : Type} {item : Reader α} {first : Bool} {name : String} {x : α}
    {bs afterName afterColon rest : Bytes} (hname : memberName? first bs = .ok (some name, afterName))
    (hcolon : colon afterName = .ok afterColon) (hitem : item afterColon = .ok (x, rest))
    (fuel : Nat) : members item (fuel + 1) first bs =
      mapResult ((name, x) :: ·) (members item fuel false rest) := by
  simp only [members, hname, hcolon, hitem]
  cases members item fuel false rest <;> rfl

/-- A member whose value is a text, after its name has been read. -/
theorem members_of_name {e : String × String} {first : Bool} {bs rest : Bytes}
    (depth fuel : Nat)
    (h : memberName? first bs = .ok (some e.1, 58 :: (Utf8.encode (writeText e.2) ++ rest))) :
    members (valueAt depth) (fuel + 1) first bs =
      mapResult ((e.1, .text e.2) :: ·) (members (valueAt depth) fuel false rest) :=
  members_of_parts h rfl (valueAt_writeText depth e.2 rest) fuel

/-- The members after the first one. -/
def furtherMembers (es : List (String × String)) : List Char :=
  es.flatMap fun e => ',' :: textMember e

theorem encode_furtherMembers_cons (e : String × String) (es : List (String × String)) :
    Utf8.encode (furtherMembers (e :: es)) =
      44 :: (Utf8.encode (textMember e) ++ Utf8.encode (furtherMembers es)) := by
  rw [furtherMembers, List.flatMap_cons, List.cons_append, Utf8.encode_cons_ascii (by decide),
    Utf8.encode_append]
  rfl

theorem length_le_furtherMembers (es : List (String × String)) :
    es.length ≤ (Utf8.encode (furtherMembers es)).length := by
  induction es with
  | nil => simp
  | cons e es ih =>
      rw [encode_furtherMembers_cons, List.length_cons, List.length_cons, List.length_append]
      omega

theorem members_furtherMembers {es : List (String × String)} {fuel : Nat} (depth : Nat)
    (rest : Bytes) (hfuel : es.length < fuel) :
    members (valueAt depth) fuel false (Utf8.encode (furtherMembers es) ++ 125 :: rest) =
      .ok (textValues es, rest) := by
  induction es generalizing fuel with
  | nil =>
      obtain ⟨fuel, rfl⟩ : ∃ f, fuel = f + 1 := ⟨fuel - 1, by simp at hfuel; omega⟩
      rfl
  | cons e es ih =>
      rw [List.length_cons] at hfuel
      obtain ⟨fuel, rfl⟩ : ∃ f, fuel = f + 1 := ⟨fuel - 1, by omega⟩
      rw [encode_furtherMembers_cons, List.cons_append, List.append_assoc,
        members_of_name depth fuel (memberName?_next e _), ih (by omega)]
      rfl

theorem encode_writeMembers_cons (e : String × String) (es : List (String × String)) :
    Utf8.encode (writeMembers ((e :: es).map fun e => (e.1, writeText e.2))) =
      123 :: (Utf8.encode (textMember e) ++ (Utf8.encode (furtherMembers es) ++ [125])) := by
  rw [writeMembers, List.map_map, List.cons_append, Utf8.encode_cons_ascii (by decide),
    Utf8.encode_append, List.map_cons, separate_cons, List.flatMap_map, Utf8.encode_append,
    List.append_assoc]
  rfl

/-- An object of texts is read back, whatever comes after it. -/
theorem valueAt_writeMembers (es : List (String × String)) (rest : Bytes) :
    valueAt maxDepth (Utf8.encode (writeMembers (es.map fun e => (e.1, writeText e.2))) ++ rest) =
      .ok (.object (textValues es), rest) := by
  cases es with
  | nil => rfl
  | cons e es =>
      have hopen (bs : Bytes) : skipBlanks (123 :: bs) = 123 :: bs := rfl
      have hlen := length_le_furtherMembers es
      have hmembers : members (valueAt 126) ((Utf8.encode (textMember e) ++
          (Utf8.encode (furtherMembers es) ++ 125 :: rest)).length + 1) true
          (Utf8.encode (textMember e) ++ (Utf8.encode (furtherMembers es) ++ 125 :: rest)) =
            .ok (textValues (e :: es), rest) := by
        rw [members_of_name 126 _ (memberName?_first e _), members_furtherMembers 126 rest]
        · rfl
        · simp only [List.length_append, List.length_cons]
          omega
      rw [encode_writeMembers_cons, List.cons_append, List.append_assoc, List.append_assoc,
        List.singleton_append, maxDepth, valueAt, hopen]
      simp only [hmembers]
      rfl

/-- **An object of texts is read back**, with nothing or with blanks after it. -/
theorem read_writeMembers (es : List (String × String)) {rest : Bytes}
    (hrest : skipBlanks rest = []) :
    read (Utf8.encode (writeMembers (es.map fun e => (e.1, writeText e.2))) ++ rest) =
      .ok (.object (textValues es)) := by
  simp only [read, whole, valueAt_writeMembers, hrest]

end Json

end SecretResolver
