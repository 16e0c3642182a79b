/-
**Which texts are user secret references.**

A text is read as a reference just when it is the text of that reference and the reference could be
written at all: its engine is an identifier, its values are not empty and hold neither a separator
nor a line feed, its names are legal, and there is at least one parameter.  An identifier holds no
`?`, so the first one ends the engine, and a further one is part of a value.

Main definitions:

* `UserRef.Valid` — a reference that can be written.

Main results:

* `UserRef.splitBody_eq_some_iff` — where the query begins;
* `UserRef.parse_eq_ok_iff` — **reading is the inverse of writing**.
-/

import SecretResolver.Proofs.Reference.Parameters
import SecretResolver.Reference.User

set_option relaxedAutoImplicit false
set_option autoImplicit false

namespace SecretResolver

namespace UserRef

open Parameters (Legal writeSegment)

/-- A reference that can be written. -/
structure Valid (r : UserRef) : Prop where
  /-- The engine is an identifier. -/
  engine : isEngine r.engine.toList = true
  /-- There is a parameter. -/
  parameters : r.parameters.entries ≠ []
  /-- All parameters are legal. -/
  legal : ∀ e ∈ r.parameters.entries, Legal grammar e
  /-- No value holds a separator. -/
  whole : ∀ e ∈ r.parameters.entries, '&' ∉ e.2.toList
  /-- No value goes over the end of a line. -/
  oneLine : ∀ e ∈ r.parameters.entries, '\n' ∉ e.2.toList

/-! ### Engine and query -/

/-- An identifier holds no question mark. -/
theorem not_mem_of_isEngine {cs : List Char} (h : isEngine cs = true) : '?' ∉ cs := by
  cases cs with
  | nil => simp
  | cons c cs =>
      rw [isEngine, Bool.and_eq_true, List.all_eq_true] at h
      intro hm
      rcases List.mem_cons.1 hm with rfl | hm
      · exact absurd h.1 (by decide)
      · exact absurd (h.2 '?' hm) (by decide)

/-- **Where the query begins**: the engine ends at the first question mark. -/
theorem splitBody_eq_some_iff {cs engine query : List Char} :
    splitBody cs = some (engine, query) ↔
      cs = engine ++ '?' :: query ∧ isEngine engine = true ∧ query ≠ [] ∧ '\n' ∉ query := by
  constructor
  · intro h
    cases hs : Text.splitFirst '?' cs with
    | none => simp [splitBody, hs] at h
    | some p =>
        obtain ⟨a, b⟩ := p
        obtain ⟨rfl, -⟩ := Text.splitFirst_eq_some_iff.1 hs
        simp only [splitBody, hs] at h
        split at h
        · rename_i hform
          obtain ⟨rfl, rfl⟩ := Prod.mk.inj (Option.some.inj h)
          simp only [Bool.and_eq_true, Bool.not_eq_true', List.isEmpty_eq_false_iff,
            List.contains_eq_mem, decide_eq_false_iff_not] at hform
          exact ⟨rfl, hform.1.1, hform.1.2, hform.2⟩
        · exact absurd h (by simp)
  · rintro ⟨rfl, hengine, hsome, hline⟩
    have hs : Text.splitFirst '?' (engine ++ '?' :: query) = some (engine, query) :=
      Text.splitFirst_eq_some_iff.2 ⟨rfl, not_mem_of_isEngine hengine⟩
    simp [splitBody, hs, hengine, hsome, hline]

/-! ### The text of a reference -/

theorem query_eq {r : UserRef} (h : r.parameters.entries ≠ []) :
    r.query = '?' :: Text.joinWith '&' (Parameters.write grammar r.parameters) := by
  unfold query
  split
  · rename_i hnil
    exact absurd (List.map_eq_nil_iff.1 hnil) h
  · rfl

theorem toList_text (r : UserRef) :
    r.text.toList = secretScheme.toList ++ (r.engine.toList ++ r.query) := by
  rw [text, String.toList_ofList, List.append_assoc]

theorem isAlphanumeric_delimiter : Text.isAlphanumeric grammar.delimiter = false := by decide

/-- No segment of a reference that can be written holds a separator. -/
theorem Valid.not_mem_segments {r : UserRef} (h : r.Valid) :
    ∀ p ∈ Parameters.write grammar r.parameters, '&' ∉ p := by
  intro p hp
  obtain ⟨e, he, rfl⟩ := List.mem_map.1 hp
  exact ((h.legal e he).not_mem_writeSegment (by decide) (by decide)).2 (h.whole e he)

/-- The query of a reference is not empty and stands on one line. -/
theorem Valid.query_form {r : UserRef} (h : r.Valid) :
    Text.joinWith '&' (Parameters.write grammar r.parameters) ≠ [] ∧
      '\n' ∉ Text.joinWith '&' (Parameters.write grammar r.parameters) := by
  constructor
  · -- the delimiter of the first parameter is in it
    obtain ⟨e, es, hes⟩ := List.exists_cons_of_ne_nil h.parameters
    have hmem : grammar.delimiter ∈
        Text.joinWith '&' (Parameters.write grammar r.parameters) := by
      rw [Text.mem_joinWith (by decide), Parameters.write, hes]
      exact ⟨writeSegment grammar e, by simp, by simp [writeSegment]⟩
    exact List.ne_nil_of_mem hmem
  · rw [Text.mem_joinWith (by decide)]
    rintro ⟨p, hp, hline⟩
    obtain ⟨e, he, rfl⟩ := List.mem_map.1 hp
    exact ((h.legal e he).not_mem_writeSegment (by decide) (by decide)).2 (h.oneLine e he) hline

/-! ### Reading -/

/-- A query is read as the parameters that it is written with. -/
theorem read_query_eq_ok_iff {query : List Char} {ps : Table String} :
    Parameters.read grammar (Text.splitAll grammar.separator query) = .ok ps ↔
      query = Text.joinWith '&' (Parameters.write grammar ps) ∧ ps.entries ≠ [] ∧
        ∀ e ∈ ps.entries, Legal grammar e ∧ '&' ∉ e.2.toList := by
  rw [Parameters.read_eq_ok_iff isAlphanumeric_delimiter, Text.splitAll_eq_iff]
  constructor
  · rintro ⟨⟨hne, hwhole, heq⟩, hlegal⟩
    refine ⟨heq, fun hnil => hne (by simp [Parameters.write, hnil]), fun e he => ?_⟩
    have hsegment := hwhole _ (List.mem_map.2 ⟨e, he, rfl⟩)
    exact ⟨hlegal e he,
      ((hlegal e he).not_mem_writeSegment (by decide) (by decide)).1 hsegment⟩
  · rintro ⟨heq, hne, hform⟩
    refine ⟨⟨fun hnil => hne (List.map_eq_nil_iff.1 hnil), ?_, heq⟩, fun e he => (hform e he).1⟩
    intro p hp
    obtain ⟨e, he, rfl⟩ := List.mem_map.1 hp
    exact ((hform e he).1.not_mem_writeSegment (by decide) (by decide)).2 (hform e he).2

/-- A text is read in two steps: its body is cut into engine and query, and the query is read. -/
theorem parse_eq_ok_iff_splitBody {s : String} {r : UserRef} :
    parse s = .ok r ↔ ∃ engine query, s.toList = secretScheme.toList ++ (engine ++ '?' :: query) ∧
      isEngine engine = true ∧ query ≠ [] ∧ '\n' ∉ query ∧ r.engine = String.ofList engine ∧
      Parameters.read grammar (Text.splitAll grammar.separator query) = .ok r.parameters := by
  have hbody : ∀ engine query,
      (Text.dropStart secretScheme.toList s.toList).bind splitBody = some (engine, query) ↔
        s.toList = secretScheme.toList ++ (engine ++ '?' :: query) ∧ isEngine engine = true ∧
          query ≠ [] ∧ '\n' ∉ query := by
    intro engine query
    simp only [Option.bind_eq_some_iff, Text.dropStart_eq_some_iff, splitBody_eq_some_iff]
    constructor
    · rintro ⟨rest, heq, rfl, hform⟩
      exact ⟨heq, hform⟩
    · rintro ⟨heq, hform⟩
      exact ⟨_, heq, rfl, hform⟩
  constructor
  · intro h
    unfold parse at h
    split at h
    · exact absurd h (by simp)
    · rename_i engine query hp
      obtain ⟨heq, hengine, hsome, hline⟩ := (hbody engine query).1 hp
      split at h
      · exact absurd h (by simp)
      · rename_i ps hread
        obtain rfl := Except.ok.inj h
        exact ⟨engine, query, heq, hengine, hsome, hline, rfl, hread⟩
  · rintro ⟨engine, query, heq, hengine, hsome, hline, hr, hread⟩
    have hp := (hbody engine query).2 ⟨heq, hengine, hsome, hline⟩
    simp only [parse, hp, hread, ← hr]

/-- **Reading is the inverse of writing.** -/
theorem parse_eq_ok_iff {s : String} {r : UserRef} : parse s = .ok r ↔ s = r.text ∧ r.Valid := by
  rw [← String.toList_inj, toList_text, parse_eq_ok_iff_splitBody]
  constructor
  · rintro ⟨engine, query, heq, hengine, -, hline, hr, hread⟩
    obtain ⟨rfl, hsome, hform⟩ := read_query_eq_ok_iff.1 hread
    rw [query_eq hsome, hr, String.toList_ofList]
    refine ⟨heq, ?_⟩
    exact {
      engine := by rwa [hr, String.toList_ofList]
      parameters := hsome
      legal := fun e he => (hform e he).1
      whole := fun e he => (hform e he).2
      oneLine := fun e he hmem => by
        refine hline ((Text.mem_joinWith (by decide)).2 ⟨_, List.mem_map.2 ⟨e, he, rfl⟩, ?_⟩)
        simp [writeSegment, hmem] }
  · rintro ⟨heq, hvalid⟩
    rw [query_eq hvalid.parameters] at heq
    obtain ⟨hsome, hline⟩ := hvalid.query_form
    refine ⟨_, _, heq, hvalid.engine, hsome, hline, String.ofList_toList.symm, ?_⟩
    exact read_query_eq_ok_iff.2
      ⟨rfl, hvalid.parameters, fun e he => ⟨hvalid.legal e he, hvalid.whole e he⟩⟩

end UserRef

end SecretResolver
