/-
**Which texts are encrypted references.**

A text is read as a reference just when it is the text of that reference and the reference could be
written at all: its engine and its values are not empty and hold no separator, its names are legal,
and there is at least one parameter.

Main definitions:

* `EncryptedRef.Valid` — a reference that can be written.

Main results:

* `EncryptedRef.parse_eq_ok_iff` — **reading is the inverse of writing**;
* `EncryptedRef.segments_eq` — the pieces of the text of a reference are its engine and its segments.
-/

import SecretResolver.Proofs.Reference.Parameters
import SecretResolver.Reference.Encrypted

set_option relaxedAutoImplicit false
set_option autoImplicit false

namespace SecretResolver

namespace EncryptedRef

open Parameters (Legal writeSegment)

/-- A reference that can be written. -/
structure Valid (r : EncryptedRef) : Prop where
  /-- There is an engine. -/
  engine : r.engine ≠ ""
  /-- The engine holds no separator. -/
  engineWhole : '!' ∉ r.engine.toList
  /-- There is a parameter. -/
  parameters : r.parameters.entries ≠ []
  /-- All parameters are legal. -/
  legal : ∀ e ∈ r.parameters.entries, Legal grammar e
  /-- No value holds a separator. -/
  whole : ∀ e ∈ r.parameters.entries, '!' ∉ e.2.toList

theorem isAlphanumeric_delimiter : Text.isAlphanumeric grammar.delimiter = false := by decide

/-- A segment holds no separator just when its value holds none. -/
theorem not_mem_writeSegment {e : String × String} (h : Legal grammar e) :
    '!' ∉ writeSegment grammar e ↔ '!' ∉ e.2.toList :=
  h.not_mem_writeSegment (by decide) (by decide)

/-- The pieces of a reference that can be written are its engine and its segments. -/
theorem Valid.not_mem_segments {r : EncryptedRef} (h : r.Valid) :
    ∀ p ∈ r.engine.toList :: Parameters.write grammar r.parameters, '!' ∉ p := by
  intro p hp
  rcases List.mem_cons.1 hp with rfl | hp
  · exact h.engineWhole
  · obtain ⟨e, he, rfl⟩ := List.mem_map.1 hp
    exact (not_mem_writeSegment (h.legal e he)).2 (h.whole e he)

theorem toList_text (r : EncryptedRef) : r.text.toList = encryptedScheme.toList ++
    Text.joinWith '!' (r.engine.toList :: Parameters.write grammar r.parameters) := by
  rw [text, String.toList_ofList]
  rfl

/-- What follows the scheme is read as the reference that it is cut into. -/
theorem parseBody_eq_ok_iff {cs : List Char} {r : EncryptedRef} :
    parseBody cs = .ok r ↔
      cs = Text.joinWith '!' (r.engine.toList :: Parameters.write grammar r.parameters) ∧
        r.Valid := by
  constructor
  · intro h
    cases hs : Text.splitAll '!' cs with
    | nil => exact absurd hs (Text.splitAll_ne_nil '!' cs)
    | cons engine segments =>
        obtain ⟨-, hwhole, hcs⟩ := Text.splitAll_eq_iff.1 hs
        have hgrammar : Text.splitAll grammar.separator cs = engine :: segments := hs
        simp only [parseBody, hgrammar] at h
        split at h
        · exact absurd h (by simp)
        · rename_i hengine
          split at h
          · exact absurd h (by simp)
          · rename_i ps hread
            split at h
            · exact absurd h (by simp)
            · rename_i hsome
              obtain rfl := Except.ok.inj h
              obtain ⟨rfl, hlegal⟩ :=
                (Parameters.read_eq_ok_iff isAlphanumeric_delimiter).1 hread
              refine ⟨by rw [hcs, String.toList_ofList], ?_⟩
              exact {
                engine := fun hempty => hengine (by
                  simpa using congrArg String.toList hempty)
                engineWhole := by
                  rw [String.toList_ofList]
                  exact hwhole engine (List.mem_cons_self ..)
                parameters := fun hempty => hsome (List.isEmpty_iff.2 hempty)
                legal := hlegal
                whole := fun e he => (not_mem_writeSegment (hlegal e he)).1
                  (hwhole _ (List.mem_cons_of_mem _ (List.mem_map.2 ⟨e, he, rfl⟩))) }
  · rintro ⟨rfl, hvalid⟩
    have hs := Text.splitAll_joinWith (List.cons_ne_nil _ _) hvalid.not_mem_segments
    have hgrammar : Text.splitAll grammar.separator (Text.joinWith '!'
        (r.engine.toList :: Parameters.write grammar r.parameters)) = _ := hs
    have hread := (Parameters.read_eq_ok_iff isAlphanumeric_delimiter).2 ⟨rfl, hvalid.legal⟩
    have hengine : r.engine.toList.isEmpty = false := by
      simpa using hvalid.engine
    have hsome : r.parameters.entries.isEmpty = false := by
      simpa using hvalid.parameters
    simp [parseBody, hgrammar, hread, hengine, hsome]

/-- **Reading is the inverse of writing.** -/
theorem parse_eq_ok_iff {s : String} {r : EncryptedRef} :
    parse s = .ok r ↔ s = r.text ∧ r.Valid := by
  rw [← String.toList_inj, toList_text]
  constructor
  · intro h
    cases hd : Text.dropStart encryptedScheme.toList s.toList with
    | none => simp [parse, hd] at h
    | some rest =>
        simp only [parse, hd] at h
        obtain ⟨rfl, hvalid⟩ := parseBody_eq_ok_iff.1 h
        exact ⟨Text.dropStart_eq_some_iff.1 hd, hvalid⟩
  · rintro ⟨heq, hvalid⟩
    have hd := Text.dropStart_eq_some_iff.2 heq
    simp only [parse, hd]
    exact parseBody_eq_ok_iff.2 ⟨rfl, hvalid⟩

/-- The pieces of the text of a reference. -/
theorem segments_eq {r : EncryptedRef} (h : r.Valid) {cs : List Char}
    (hcs : r.text.toList = encryptedScheme.toList ++ cs) :
    Text.splitAll '!' cs = r.engine.toList :: Parameters.write grammar r.parameters := by
  rw [toList_text] at hcs
  rw [← List.append_cancel_left hcs]
  exact Text.splitAll_joinWith (List.cons_ne_nil _ _) h.not_mem_segments

end EncryptedRef

end SecretResolver
