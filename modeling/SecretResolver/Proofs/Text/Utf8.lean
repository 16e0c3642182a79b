/-
**Reading what was written in UTF-8.**

The bytes of a character are read as that character, whatever comes after them, so the bytes of a
text are read as that text, and no two texts have the same bytes.

Main results:

* `Utf8.step_encodeChar` — one character;
* `Utf8.decode_encode`, `Utf8.text?_ofString` — **a text is read back**;
* `Utf8.ofString_injective`;
* `Utf8.decode_of_append` — a beginning of the bytes of a text is a beginning of the text, up to a
  character that it is cut off within;
* `Utf8.encode_of_decode` — a text of ASCII has no other bytes than its own.
-/

import SecretResolver.Text.Utf8

set_option relaxedAutoImplicit false
set_option autoImplicit false

namespace SecretResolver

namespace Utf8

/-! ### One character -/

section Step

variable {b₁ b₂ b₃ b₄ : UInt8} {n : Nat} (rest : Bytes)

theorem step_one (h₁ : b₁.toNat = n) (hn : n ≤ 0x7f) :
    step (b₁ :: rest) = .char (Char.ofNat n) rest := by
  have hb : b₁ < 0x80 := by
    simp only [UInt8.lt_iff_toNat_lt, UInt8.reduceToNat, h₁]
    omega
  simp [step, hb, h₁]

theorem isTail_of_toNat (h : b₁.toNat = n % 64 + 0x80) : isTail b₁ = true := by
  simp only [isTail, Bool.and_eq_true, decide_eq_true_eq, UInt8.le_iff_toNat_le, h]
  simp only [UInt8.reduceToNat]
  omega

theorem tailBits_of_toNat (h : b₁.toNat = n % 64 + 0x80) : tailBits b₁ = n % 64 := by
  unfold tailBits
  omega

theorem step_two (h₁ : b₁.toNat = n / 64 + 0xc0) (h₂ : b₂.toNat = n % 64 + 0x80)
    (hlow : 0x7f < n) (hhigh : n ≤ 0x7ff) :
    step (b₁ :: b₂ :: rest) = .char (Char.ofNat n) rest := by
  have hone : ¬ b₁ < 0x80 := by
    simp only [UInt8.lt_iff_toNat_lt, UInt8.reduceToNat, h₁]
    omega
  have htwo : 0xC2 ≤ b₁ ∧ b₁ ≤ 0xDF := by
    simp only [UInt8.le_iff_toNat_le, UInt8.reduceToNat, h₁]
    omega
  have hn : (b₁.toNat - 0xC0) * 64 + tailBits b₂ = n := by
    rw [tailBits_of_toNat h₂, h₁]
    omega
  simp [step, hone, htwo, isTail_of_toNat h₂, char2, hn]

theorem step_three (h₁ : b₁.toNat = n / 4096 + 0xe0) (h₂ : b₂.toNat = n / 64 % 64 + 0x80)
    (h₃ : b₃.toNat = n % 64 + 0x80) (hlow : 0x7ff < n) (hhigh : n ≤ 0xffff)
    (hvalid : n < 0xd800 ∨ 0xdfff < n) :
    step (b₁ :: b₂ :: b₃ :: rest) = .char (Char.ofNat n) rest := by
  have hone : ¬ b₁ < 0x80 := by
    simp only [UInt8.lt_iff_toNat_lt, UInt8.reduceToNat, h₁]
    omega
  have htwo : ¬ b₁ ≤ 0xDF := by
    simp only [UInt8.le_iff_toNat_le, UInt8.reduceToNat, h₁]
    omega
  have hthree : 0xE0 ≤ b₁ ∧ b₁ ≤ 0xEF := by
    simp only [UInt8.le_iff_toNat_le, UInt8.reduceToNat, h₁]
    omega
  -- the second byte tells overlong forms and surrogates
  have hsecond : isSecond b₁ b₂ = true := by
    simp only [isSecond, isTail, beq_iff_eq, ← UInt8.toNat_inj, UInt8.le_iff_toNat_le,
      UInt8.reduceToNat, h₁, h₂]
    repeat' split
    all_goals simp only [Bool.and_eq_true, decide_eq_true_eq]
    all_goals omega
  have hn : (b₁.toNat - 0xE0) * 4096 + tailBits b₂ * 64 + tailBits b₃ = n := by
    rw [tailBits_of_toNat h₂, tailBits_of_toNat h₃, h₁]
    omega
  simp [step, hone, htwo, hthree, hsecond, isTail_of_toNat h₃, char3, hn]

theorem step_four (h₁ : b₁.toNat = n / 262144 + 0xf0) (h₂ : b₂.toNat = n / 4096 % 64 + 0x80)
    (h₃ : b₃.toNat = n / 64 % 64 + 0x80) (h₄ : b₄.toNat = n % 64 + 0x80) (hlow : 0xffff < n)
    (hhigh : n < 0x110000) :
    step (b₁ :: b₂ :: b₃ :: b₄ :: rest) = .char (Char.ofNat n) rest := by
  have hone : ¬ b₁ < 0x80 := by
    simp only [UInt8.lt_iff_toNat_lt, UInt8.reduceToNat, h₁]
    omega
  have htwo : ¬ b₁ ≤ 0xDF := by
    simp only [UInt8.le_iff_toNat_le, UInt8.reduceToNat, h₁]
    omega
  have hthree : ¬ b₁ ≤ 0xEF := by
    simp only [UInt8.le_iff_toNat_le, UInt8.reduceToNat, h₁]
    omega
  have hfour : 0xF0 ≤ b₁ ∧ b₁ ≤ 0xF4 := by
    simp only [UInt8.le_iff_toNat_le, UInt8.reduceToNat, h₁]
    omega
  -- the second byte tells overlong forms and values that are too great
  have hsecond : isSecond b₁ b₂ = true := by
    simp only [isSecond, isTail, beq_iff_eq, ← UInt8.toNat_inj, UInt8.le_iff_toNat_le,
      UInt8.reduceToNat, h₁, h₂]
    repeat' split
    all_goals simp only [Bool.and_eq_true, decide_eq_true_eq]
    all_goals omega
  have hn : (b₁.toNat - 0xF0) * 262144 + tailBits b₂ * 4096 + tailBits b₃ * 64 + tailBits b₄ =
      n := by
    rw [tailBits_of_toNat h₂, tailBits_of_toNat h₃, tailBits_of_toNat h₄, h₁]
    omega
  simp [step, hone, htwo, hthree, hfour, hsecond, isTail_of_toNat h₃, isTail_of_toNat h₄, char4, hn]

/-- **The bytes of a character are read as that character**, whatever comes after them. -/
theorem step_encodeChar (c : Char) : step (String.utf8EncodeChar c ++ rest) = .char c rest := by
  have hvalid : c.val.toNat < 0xd800 ∨ 0xdfff < c.val.toNat ∧ c.val.toNat < 0x110000 := c.valid
  have hc : Char.ofNat c.val.toNat = c := Char.ofNat_toNat c
  unfold String.utf8EncodeChar
  generalize c.val.toNat = n at hvalid hc
  subst hc
  dsimp only
  split
  · rename_i hn
    exact step_one rest (by rw [UInt8.toNat_ofNat']; omega) hn
  · split
    · exact step_two rest (by rw [UInt8.toNat_ofNat']; omega) (by rw [UInt8.toNat_ofNat']; omega)
        (by omega) (by assumption)
    · split
      · exact step_three rest (by rw [UInt8.toNat_ofNat']; omega)
          (by rw [UInt8.toNat_ofNat']; omega) (by rw [UInt8.toNat_ofNat']; omega) (by omega)
          (by assumption) (by omega)
      · exact step_four rest (by rw [UInt8.toNat_ofNat']; omega)
          (by rw [UInt8.toNat_ofNat']; omega) (by rw [UInt8.toNat_ofNat']; omega)
          (by rw [UInt8.toNat_ofNat']; omega) (by omega) (by omega)

end Step

/-! ### The bytes of a character -/

theorem encodeChar_of_ascii {c : Char} (h : c.toNat < 0x80) :
    String.utf8EncodeChar c = [UInt8.ofNat c.toNat] := by
  have hc : c.val.toNat ≤ 0x7f := Nat.le_of_lt_succ h
  unfold String.utf8EncodeChar
  simp only [hc, if_true]
  rfl

/-- A character of ASCII is one byte. -/
theorem encode_cons_ascii {c : Char} (h : c.toNat < 0x80) (cs : List Char) :
    encode (c :: cs) = UInt8.ofNat c.toNat :: encode cs := by
  rw [encode_cons, encodeChar_of_ascii h]
  rfl

theorem length_ofString (s : String) : (ofString s).length = s.utf8ByteSize := by
  have hsize : (String.ofList s.toList).toByteArray.size = (ofString s).length := by
    rw [String.toByteArray_ofList, List.utf8Encode, List.size_toByteArray]
    rfl
  rw [← hsize, String.size_toByteArray, String.ofList_toList]

theorem length_encode_cons (c : Char) (cs : List Char) :
    (encode (c :: cs)).length = c.utf8Size + (encode cs).length := by
  rw [encode_cons, List.length_append, String.length_utf8EncodeChar]

theorem length_le_encode (cs : List Char) : cs.length ≤ (encode cs).length := by
  induction cs with
  | nil => exact Nat.le_refl _
  | cons c cs ih =>
      have hpos : 0 < c.utf8Size := c.utf8Size_pos
      rw [length_encode_cons, List.length_cons]
      omega

/-- No byte of any other character is one of ASCII. -/
theorem le_of_mem_encodeChar {c : Char} {b : UInt8} (h : 0x80 ≤ c.toNat)
    (hb : b ∈ String.utf8EncodeChar c) : 0x80 ≤ b.toNat := by
  have hvalid : c.val.toNat < 0xd800 ∨ 0xdfff < c.val.toNat ∧ c.val.toNat < 0x110000 := c.valid
  have hn : 0x80 ≤ c.val.toNat := h
  unfold String.utf8EncodeChar at hb
  generalize c.val.toNat = n at hvalid hn hb
  dsimp only at hb
  rw [if_neg (by omega)] at hb
  split at hb
  · simp only [List.mem_cons, List.not_mem_nil, or_false] at hb
    rcases hb with rfl | rfl <;> rw [UInt8.toNat_ofNat'] <;> omega
  · split at hb
    · simp only [List.mem_cons, List.not_mem_nil, or_false] at hb
      rcases hb with rfl | rfl | rfl <;> rw [UInt8.toNat_ofNat'] <;> omega
    · simp only [List.mem_cons, List.not_mem_nil, or_false] at hb
      rcases hb with rfl | rfl | rfl | rfl <;> rw [UInt8.toNat_ofNat'] <;> omega

/-- The bytes of a character up to some place within it are no fault: they are cut off. -/
theorem step_cut {c : Char} {p q : Bytes} (hc : String.utf8EncodeChar c = p ++ q) (hq : q ≠ []) :
    step p = .cut := by
  have hs : step (p ++ q) = .char c [] := by
    rw [← hc, ← step_encodeChar [] c, List.append_nil]
  obtain ⟨x, q, rfl⟩ := List.exists_cons_of_ne_nil hq
  match p with
  | [] => rfl
  | [b] =>
      simp only [step, List.cons_append, List.nil_append] at hs ⊢
      grind
  | [b, d] =>
      simp only [step, List.cons_append, List.nil_append] at hs ⊢
      grind
  | [b, d, e] =>
      simp only [step, List.cons_append, List.nil_append] at hs ⊢
      grind
  | b :: d :: e :: f :: p =>
      have hlen := congrArg List.length hc
      have hmax := Char.utf8Size_le_four c
      simp only [String.length_utf8EncodeChar, List.length_append, List.length_cons] at hlen
      omega

/-! ### Texts -/

/-- A character at the head of some bytes is the first one of their text. -/
theorem decode_of_step {bs rest : Bytes} {c : Char} (h : step bs = .char c rest) :
    decode bs = (c :: (decode rest).1, (decode rest).2) := by
  rw [decode]
  split
  · rename_i c' rest' h'
    obtain ⟨rfl, rfl⟩ := Step.char.inj (h.symm.trans h')
    rfl
  · rename_i h'
    exact absurd (h.symm.trans h') (by simp)
  · rename_i h'
    exact absurd (h.symm.trans h') (by simp)

theorem decode_of_cut {bs : Bytes} (h : step bs = .cut) : decode bs = ([], bs) := by
  rw [decode]
  split
  · rename_i h'
    exact absurd (h.symm.trans h') (by simp)
  · rfl
  · rfl

/-- **A text is read back from its bytes.** -/
theorem decode_encode (cs : List Char) : decode (encode cs) = (cs, []) := by
  induction cs with
  | nil =>
      rw [encode_nil, decode]
      rfl
  | cons c cs ih =>
      rw [encode_cons, decode_of_step (step_encodeChar (encode cs) c), ih]

theorem text?_ofString (s : String) : text? (ofString s) = some s := by
  rw [text?, ofString, decode_encode]
  exact congrArg some (String.ofList_toList)

/-- No two texts have the same bytes. -/
theorem ofString_injective {s t : String} (h : ofString s = ofString t) : s = t := by
  have hs := text?_ofString s
  rw [h, text?_ofString t] at hs
  exact (Option.some.inj hs).symm

/-- What stands before a cut in the bytes of a text is a beginning of the text, up to the bytes of
the character that the cut goes through. -/
theorem decode_of_append {p q : Bytes} {cs : List Char} (h : encode cs = p ++ q) :
    ∃ ds es cut, cs = ds ++ es ∧ decode p = (ds, cut) ∧ p = encode ds ++ cut ∧
      step cut = .cut ∧ cut.length ≤ 3 := by
  induction cs generalizing p with
  | nil =>
      obtain ⟨rfl, rfl⟩ := List.append_eq_nil_iff.1 h.symm
      exact ⟨[], [], [], rfl, decode_of_cut rfl, rfl, rfl, Nat.zero_le 3⟩
  | cons c cs ih =>
      rw [encode_cons] at h
      have hchar := List.prefix_append (String.utf8EncodeChar c) (encode cs)
      by_cases hlen : (String.utf8EncodeChar c).length ≤ p.length
      · -- the first character lies before the cut
        obtain ⟨p', rfl⟩ := List.prefix_of_prefix_length_le (h ▸ hchar) (List.prefix_append p q) hlen
        rw [List.append_assoc, List.append_cancel_left_eq] at h
        obtain ⟨ds, es, cut, rfl, hds, hp', hcut, hle⟩ := ih h
        refine ⟨c :: ds, es, cut, rfl, ?_, ?_, hcut, hle⟩
        · rw [decode_of_step (step_encodeChar p' c), hds]
        · rw [encode_cons, List.append_assoc, ← hp']
      · obtain ⟨q', hq'⟩ := List.prefix_of_prefix_length_le (h ▸ List.prefix_append p q) hchar
          (Nat.le_of_not_le hlen)
        have hcut : step p = .cut := by
          refine step_cut hq'.symm ?_
          rintro rfl
          rw [List.append_nil] at hq'
          exact hlen (Nat.le_of_eq (by rw [hq']))
        have hmax := Char.utf8Size_le_four c
        rw [String.length_utf8EncodeChar] at hlen
        exact ⟨[], c :: cs, p, rfl, decode_of_cut hcut, rfl, hcut, by omega⟩

/-! ### Texts of ASCII -/

/-- A number whose character is not the one with number zero is the number of its character. -/
theorem toNat_ofNat {k : Nat} (h : Char.ofNat k ≠ '\x00') : (Char.ofNat k).toNat = k := by
  by_cases hk : k.isValidChar
  · have hchar : Char.ofNat k = Char.ofNatAux k hk := dif_pos hk
    rw [hchar]
    rfl
  · exact absurd (dif_neg hk) h

theorem le_tailBits {c : UInt8} {n : Nat} (h : 0x80 + n ≤ c.toNat) : n ≤ tailBits c := by
  unfold tailBits
  omega

/-- The second byte is great enough where the first one adds nothing. -/
theorem le_of_isSecond {b c : UInt8} (h : isSecond b c = true) :
    (b.toNat = 0xE0 → 0x10 ≤ tailBits c) ∧ (b.toNat = 0xF0 → 0x10 ≤ tailBits c) := by
  refine ⟨fun hb => le_tailBits ?_, fun hb => le_tailBits ?_⟩
  · obtain rfl : b = 0xE0 := UInt8.toNat_inj.1 hb
    simp [isSecond, UInt8.le_iff_toNat_le] at h
    omega
  · obtain rfl : b = 0xF0 := UInt8.toNat_inj.1 hb
    simp [isSecond, UInt8.le_iff_toNat_le] at h
    omega

/-- A character at the head of some bytes is one byte, or its number is not among the first 128. -/
theorem step_cases {bs rest : Bytes} {c : Char} (h : step bs = .char c rest) :
    (∃ b, bs = b :: rest ∧ c = Char.ofNat b.toNat) ∨ ∃ k, 0x80 ≤ k ∧ c = Char.ofNat k := by
  cases bs with
  | nil => exact nomatch h
  | cons b bs =>
      simp only [step] at h
      split at h
      · obtain ⟨rfl, rfl⟩ := Step.char.inj h
        exact .inl ⟨b, rfl, rfl⟩
      · right
        simp only [Bool.and_eq_true, decide_eq_true_eq, UInt8.le_iff_toNat_le,
          UInt8.reduceToNat] at h
        split at h
        · rename_i hb
          repeat' split at h
          all_goals try exact Step.noConfusion h
          exact ⟨_, by omega, (Step.char.inj h).1.symm⟩
        · split at h
          · rename_i hb
            repeat' split at h
            all_goals try exact Step.noConfusion h
            rename_i hsecond
            have hd := (le_of_isSecond hsecond.1).1
            exact ⟨_, by omega, (Step.char.inj h).1.symm⟩
          · split at h
            · rename_i hb
              repeat' split at h
              all_goals try exact Step.noConfusion h
              rename_i hsecond
              have hd := (le_of_isSecond hsecond.1.1).2
              exact ⟨_, by omega, (Step.char.inj h).1.symm⟩
            · exact Step.noConfusion h

/-- Within the first 128 a character is one byte. -/
theorem step_ascii {bs rest : Bytes} {c : Char} (h : step bs = .char c rest)
    (hascii : c.toNat < 0x80) (hc : c ≠ '\x00') : bs = UInt8.ofNat c.toNat :: rest := by
  obtain ⟨b, rfl, rfl⟩ | ⟨k, hk, rfl⟩ := step_cases h
  · rw [toNat_ofNat hc, UInt8.ofNat_toNat]
  · rw [toNat_ofNat hc] at hascii
    omega

theorem decode_of_invalid {bs : Bytes} (h : step bs = .invalid) : decode bs = ([], bs) := by
  rw [decode]
  split
  · rename_i h'
    exact absurd (h.symm.trans h') (by simp)
  · rfl
  · rfl

/-- **A text of such characters** has no other bytes than its own. -/
theorem encode_of_decode {bs : Bytes} {cs : List Char} (h : decode bs = (cs, []))
    (hascii : ∀ c ∈ cs, c.toNat < 0x80 ∧ c ≠ '\x00') : bs = encode cs := by
  induction cs generalizing bs with
  | nil =>
      cases hstep : step bs with
      | char c rest =>
          rw [decode_of_step hstep] at h
          exact nomatch h
      | cut =>
          rw [decode_of_cut hstep] at h
          exact (Prod.mk.inj h).2
      | invalid =>
          rw [decode_of_invalid hstep] at h
          exact (Prod.mk.inj h).2
  | cons c cs ih =>
      cases hstep : step bs with
      | char d rest =>
          rw [decode_of_step hstep] at h
          obtain ⟨hlist, hrest⟩ := Prod.mk.inj h
          obtain ⟨rfl, hcs⟩ := List.cons.inj hlist
          have hd := hascii d (by simp)
          rw [step_ascii hstep hd.1 hd.2, encode_cons_ascii hd.1,
            ih (Prod.ext hcs hrest) fun e he => hascii e (by simp [he])]
      | cut =>
          rw [decode_of_cut hstep] at h
          exact nomatch h
      | invalid =>
          rw [decode_of_invalid hstep] at h
          exact nomatch h

theorem ofString_of_text? {bs : Bytes} {s : String} (h : text? bs = some s)
    (hascii : ∀ c ∈ s.toList, c.toNat < 0x80 ∧ c ≠ '\x00') : bs = ofString s := by
  rw [text?] at h
  split at h
  · rename_i cs hdecode
    obtain rfl := Option.some.inj h
    rw [String.toList_ofList] at hascii
    rw [encode_of_decode hdecode hascii, ofString, String.toList_ofList]
  · exact nomatch h

end Utf8

end SecretResolver
