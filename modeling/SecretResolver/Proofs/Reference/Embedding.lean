/-
**Values within references.**

A value is put into a reference by writing it behind the name of its parameter and reading the whole
again.  A value that holds separators is thereby cut into pieces, and a reference comes of it just
when the further pieces are parameters of their own.  Then the reference holds the first piece only.

Main definitions:

* `Embedded.Embeds` — a text is a value followed by further parameters;
* `Embedded.Embeds.reference` — the reference that comes of such a text.

Main results:

* `Embedded.encrypt_eq_ok_iff` — **which references come of which texts**;
* `Embedded.Embeds.bytes_eq`, `Embedded.Embeds.parse_text` — the reference holds the value, and it
  is read back from its text;
* `Embedded.Embeds.further_eq_nil_iff` — there are no further parameters just when there is no
  separator, and then the value is the whole text.
-/

import SecretResolver.Engine
import SecretResolver.Proofs.Reference.Encrypted

set_option relaxedAutoImplicit false
set_option autoImplicit false

namespace SecretResolver

namespace Embedded

open EncryptedRef (grammar)
open Parameters (Legal writeSegment)

/-- A text is a value followed by further parameters, each after a separator. -/
structure Embeds (p value : String) (further : List (String × String)) : Prop where
  /-- The text is written so. -/
  text : p.toList = Text.joinWith '!' (value.toList :: further.map (writeSegment grammar))
  /-- The value is not empty. -/
  present : value ≠ ""
  /-- The value holds no separator. -/
  whole : '!' ∉ value.toList
  /-- The further parameters are legal. -/
  legal : ∀ e ∈ further, Legal grammar e
  /-- Their values hold no separator. -/
  furtherWhole : ∀ e ∈ further, '!' ∉ e.2.toList
  /-- All names are distinct, that of the parameter for the value included. -/
  distinct : (Entries.names ((valueParameter, value) :: further)).Nodup

variable {p value : String} {further : List (String × String)}

/-- The reference that comes of a value and further parameters. -/
def Embeds.reference (h : Embeds p value further) : EncryptedRef :=
  ⟨identifier, ⟨(valueParameter, value) :: further, h.distinct⟩⟩

/-! ### The text of the reference -/

theorem toList_referenceText (p : String) :
    (referenceText p).toList = encryptedScheme.toList ++ (identifier.toList ++
      '!' :: (valueParameter.toList ++ ':' :: p.toList)) := by
  have htext : referenceText p =
      encryptedScheme ++ identifier ++ "!" ++ valueParameter ++ ":" ++ p := rfl
  simp [htext]

theorem legal_value (h : value ≠ "") : Legal grammar (valueParameter, value) :=
  have hname : Parameters.isName valueParameter.toList = true := by decide
  have hfree : valueParameter ∉ grammar.reserved := by decide
  ⟨hname, hfree, h⟩

theorem Embeds.valid (h : Embeds p value further) : h.reference.Valid where
  engine := (by decide : identifier ≠ "")
  engineWhole := (by decide : '!' ∉ identifier.toList)
  parameters := List.cons_ne_nil _ _
  legal e he := by
    rcases List.mem_cons.1 he with rfl | he
    · exact legal_value h.present
    · exact h.legal e he
  whole e he := by
    rcases List.mem_cons.1 he with rfl | he
    · exact h.whole
    · exact h.furtherWhole e he

/-- The text of the reference is the one that was made of the text. -/
theorem Embeds.text_reference (h : Embeds p value further) :
    h.reference.text = referenceText p := by
  rw [← String.toList_inj, toList_referenceText, EncryptedRef.toList_text, h.text]
  have hwrite : Parameters.write grammar h.reference.parameters =
      ((valueParameter.toList ++ [':']) ++ value.toList) :: further.map (writeSegment grammar) := by
    rw [List.append_assoc]
    rfl
  have hengine : h.reference.engine = identifier := rfl
  rw [hwrite, hengine, Text.joinWith_cons (List.cons_ne_nil _ _), Text.joinWith_append_left,
    List.append_assoc, List.singleton_append]

/-- The pieces of the text are the value and the segments of the further parameters. -/
theorem Embeds.pieces (h : Embeds p value further) :
    Text.splitAll '!' p.toList = value.toList :: further.map (writeSegment grammar) := by
  refine Text.splitAll_eq_iff.2 ⟨List.cons_ne_nil _ _, fun piece hm => ?_, h.text⟩
  rcases List.mem_cons.1 hm with rfl | hm
  · exact h.whole
  · obtain ⟨e, he, rfl⟩ := List.mem_map.1 hm
    exact (EncryptedRef.not_mem_writeSegment (h.legal e he)).2 (h.furtherWhole e he)

/-! ### Reading it -/

/-- A reference that is read is one that comes of a value and further parameters. -/
theorem embeds_of_parse {r : EncryptedRef} (h : EncryptedRef.parse (referenceText p) = .ok r) :
    ∃ value further, ∃ h : Embeds p value further, r = h.reference := by
  obtain ⟨htext, hvalid⟩ := EncryptedRef.parse_eq_ok_iff.1 h
  have hcut := EncryptedRef.segments_eq hvalid
    ((congrArg String.toList htext.symm).trans (toList_referenceText p))
  rw [Text.splitAll_append (by decide)] at hcut
  obtain ⟨hengine, hwrite⟩ := List.cons.inj hcut
  -- the first piece of the text goes with the name of the parameter, the others stay as they are
  cases hp : Text.splitAll '!' p.toList with
  | nil => exact absurd hp (Text.splitAll_ne_nil '!' _)
  | cons first others =>
      have hprefix : '!' ∉ valueParameter.toList ++ [':'] := by decide
      have hsplit := Text.splitAll_append_left hprefix hp
      rw [List.append_assoc, List.append_assoc, List.singleton_append, List.singleton_append,
        hwrite] at hsplit
      obtain ⟨engine, ⟨entries, hdistinct⟩⟩ := r
      obtain rfl : identifier = engine := String.toList_inj.1 hengine
      cases entries with
      | nil => exact absurd rfl hvalid.parameters
      | cons e further =>
          obtain ⟨name, value⟩ := e
          obtain ⟨hfirst, rfl⟩ := List.cons.inj hsplit
          have hlegal := hvalid.legal (name, value) (List.mem_cons_self ..)
          have hname : Text.splitFirst ':' (valueParameter.toList ++ ':' :: first) =
              some (valueParameter.toList, first) :=
            Text.splitFirst_eq_some_iff.2 ⟨rfl, by decide⟩
          rw [← hfirst] at hname
          have hname' := hlegal.splitFirst_writeSegment EncryptedRef.isAlphanumeric_delimiter
          obtain ⟨hv, rfl⟩ := Prod.mk.inj (Option.some.inj (hname.symm.trans hname'))
          obtain rfl : valueParameter = name := String.toList_inj.1 hv
          have hembeds : Embeds p value further := {
            text := (Text.splitAll_eq_iff.1 hp).2.2
            present := hlegal.value
            whole := hvalid.whole (valueParameter, value) (List.mem_cons_self ..)
            legal := fun e he => hvalid.legal e (List.mem_cons_of_mem _ he)
            furtherWhole := fun e he => hvalid.whole e (List.mem_cons_of_mem _ he)
            distinct := hdistinct }
          exact ⟨value, further, hembeds, rfl⟩

/-- **Which references come of which texts**: those that hold a value, from texts that are the value
followed by further parameters. -/
theorem parse_eq_ok_iff {r : EncryptedRef} :
    EncryptedRef.parse (referenceText p) = .ok r ↔
      ∃ value further, ∃ h : Embeds p value further, r = h.reference := by
  constructor
  · exact embeds_of_parse
  · rintro ⟨value, further, h, rfl⟩
    exact EncryptedRef.parse_eq_ok_iff.2 ⟨h.text_reference.symm, h.valid⟩

/-! ### Making the reference -/

/-- A reference is made of a text just when it is read from the text that is made of it. -/
theorem encrypt_eq_ok_iff {r : EncryptedRef} :
    encrypt p = .ok r ↔ ∃ value further, ∃ h : Embeds p value further, r = h.reference := by
  rw [← parse_eq_ok_iff, encrypt]
  cases EncryptedRef.parse (referenceText p) <;> simp

theorem Embeds.encrypt_eq (h : Embeds p value further) : encrypt p = .ok h.reference :=
  encrypt_eq_ok_iff.2 ⟨value, further, h, rfl⟩

/-- A text of which no reference comes is refused. -/
theorem encrypt_eq_error (h : ∀ value further, ¬ Embeds p value further) :
    encrypt p = .error (.invalidFormat .notEmbeddable) := by
  cases hp : EncryptedRef.parse (referenceText p) with
  | error fault => simp [encrypt, hp]
  | ok r =>
      obtain ⟨value, further, hembeds, -⟩ := parse_eq_ok_iff.1 hp
      exact absurd hembeds (h value further)

theorem Embeds.parse_text (h : Embeds p value further) :
    EncryptedRef.parse h.reference.text = .ok h.reference :=
  EncryptedRef.parse_eq_ok_iff.2 ⟨rfl, h.valid⟩

/-- The reference holds the value, and not what follows it. -/
theorem Embeds.bytes_eq (h : Embeds p value further) :
    bytes h.reference = .ok (Utf8.ofString value) := rfl

theorem Embeds.validate_eq (h : Embeds p value further) :
    Engine.embedded.validate h.reference = .ok () := rfl

/-! ### Texts with and without separators -/

/-- A text without separators is its own value. -/
theorem embeds_self (hne : p ≠ "") (h : '!' ∉ p.toList) : Embeds p p [] where
  text := rfl
  present := hne
  whole := h
  legal := by simp
  furtherWhole := by simp
  distinct := by simp

/-- A text without separators is nothing but its own value. -/
theorem Embeds.eq_of_not_mem (h : Embeds p value further) (hp : '!' ∉ p.toList) :
    value = p ∧ further = [] := by
  have hpieces := h.pieces
  rw [Text.splitAll_of_not_mem hp] at hpieces
  obtain ⟨hvalue, hnil⟩ := List.cons.inj hpieces
  exact ⟨String.toList_inj.1 hvalue.symm, List.map_eq_nil_iff.1 hnil.symm⟩

/-- There are no further parameters just when there is no separator. -/
theorem Embeds.further_eq_nil_iff (h : Embeds p value further) :
    further = [] ↔ '!' ∉ p.toList := by
  constructor
  · rintro rfl
    have htext : p.toList = value.toList := h.text
    rw [htext]
    exact h.whole
  · exact fun hp => (h.eq_of_not_mem hp).2

/-- The value is not the whole text where there is a separator. -/
theorem Embeds.value_ne (h : Embeds p value further) (hp : '!' ∈ p.toList) : value ≠ p := by
  rintro rfl
  exact h.whole hp

theorem Embeds.ne_empty (h : Embeds p value further) : p ≠ "" := by
  rintro rfl
  obtain ⟨rfl, -⟩ := h.eq_of_not_mem (by simp)
  exact h.present rfl

end Embedded

end SecretResolver
