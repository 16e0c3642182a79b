/-
**The grammars of references, spelled out.**

What a reference looks like is said here in terms of text alone: a head, an engine, and parameters
that are written one after the other, each a word of ASCII letters and digits with a value that is
not empty.  Nothing else is read, what is read has just these parts in their order, and the text of
a reference that was read is the text that it was read from.

Main definitions:

* `Text.LetterOrDigit`, `Parameters.Word`, `Parameters.Spelled` — characters, names and parameters;
* `EncryptedRef.Written`, `UserRef.Written` — a text is a reference with some engine and some
  parameters.

Main results:

* `EncryptedRef.written_iff`, `UserRef.written_iff` — a reference is written by its own text;
* `EncryptedRef.reads_written` — **encrypted references are read just as they are written**;
* `UserRef.reads_written_query` — **and so are user secret references**.
-/

import SecretResolver.Proofs.Reference.Encrypted
import SecretResolver.Proofs.Reference.User
import SecretResolver.Resolver.Resolve

set_option relaxedAutoImplicit false
set_option autoImplicit false

namespace SecretResolver

/-! ### Characters and parameters -/

/-- A character is an ASCII letter or an ASCII digit. -/
def Text.LetterOrDigit (c : Char) : Prop :=
  ('a' ≤ c ∧ c ≤ 'z') ∨ ('A' ≤ c ∧ c ≤ 'Z') ∨ ('0' ≤ c ∧ c ≤ '9')

theorem Text.isAlphanumeric_iff {c : Char} : isAlphanumeric c = true ↔ LetterOrDigit c := by
  simp only [isAlphanumeric, isDigit, LetterOrDigit, Bool.or_eq_true, Bool.and_eq_true,
    decide_eq_true_eq]
  rw [or_assoc, or_comm, or_assoc]

namespace Parameters

/-- A text is a word of ASCII letters and digits. -/
def Word (name : String) : Prop := name ≠ "" ∧ ∀ c ∈ name.toList, Text.LetterOrDigit c

/-- Names with values can be the parameters of a reference: there is at least one, names are distinct
words and not reserved, and values are not empty and hold no character that is barred from them. -/
structure Spelled (reserved : List String) (barred : List Char) (ps : List (String × String)) :
    Prop where
  /-- There is a parameter. -/
  present : ps ≠ []
  /-- Every name is a word. -/
  word : ∀ p ∈ ps, Word p.1
  /-- No name is reserved. -/
  free : ∀ p ∈ ps, p.1 ∉ reserved
  /-- No name comes twice. -/
  distinct : (ps.map Prod.fst).Nodup
  /-- No value is empty. -/
  value : ∀ p ∈ ps, p.2 ≠ ""
  /-- No value holds a character that is barred. -/
  whole : ∀ p ∈ ps, ∀ c ∈ barred, c ∉ p.2.toList

theorem isName_iff {name : String} : isName name.toList = true ↔ Word name := by
  rw [isName, Bool.and_eq_true, List.all_eq_true, Word]
  simp only [Bool.not_eq_true', List.isEmpty_eq_false_iff, ne_eq, String.toList_eq_nil_iff,
    Text.isAlphanumeric_iff]

theorem legal_iff {g : Grammar} {e : String × String} :
    Legal g e ↔ Word e.1 ∧ e.1 ∉ g.reserved ∧ e.2 ≠ "" := by
  rw [← isName_iff]
  exact ⟨fun h => ⟨h.name, h.free, h.value⟩, fun h => ⟨h.1, h.2.1, h.2.2⟩⟩

/-- The parameters of a table can be spelled just when they are legal and their values hold nothing
that is barred. -/
theorem spelled_iff {g : Grammar} {barred : List Char} {t : Table String} :
    Spelled g.reserved barred t.entries ↔ t.entries ≠ [] ∧ (∀ e ∈ t.entries, Legal g e) ∧
      ∀ e ∈ t.entries, ∀ c ∈ barred, c ∉ e.2.toList := by
  constructor
  · intro h
    exact ⟨h.present, fun e he => legal_iff.2 ⟨h.word e he, h.free e he, h.value e he⟩, h.whole⟩
  · rintro ⟨hpresent, hlegal, hwhole⟩
    exact {
      present := hpresent
      word := fun e he => (legal_iff.1 (hlegal e he)).1
      free := fun e he => (legal_iff.1 (hlegal e he)).2.1
      distinct := t.distinct
      value := fun e he => (legal_iff.1 (hlegal e he)).2.2
      whole := hwhole }

/-! ### Readers -/

section Readers

variable {φ ρ : Type} {read : Except φ ρ} {engine : ρ → String} {parameters : ρ → Table String}
variable {written : String → List (String × String) → Prop}

/-- What is read has the parts that the text is written with: a reference is read just when the text is
written with its own parts, and whatever parts the text is written with make a reference. -/
theorem exists_ok_iff_of_written (hread : ∀ r, read = .ok r ↔ written (engine r) (parameters r).entries)
    (hparts : ∀ e ps, written e ps → ∃ r, engine r = e ∧ (parameters r).entries = ps) (e : String)
    (ps : List (String × String)) :
    (∃ r, read = .ok r ∧ engine r = e ∧ (parameters r).entries = ps) ↔ written e ps := by
  constructor
  · rintro ⟨r, hr, rfl, rfl⟩
    exact (hread r).1 hr
  · intro h
    obtain ⟨r, rfl, rfl⟩ := hparts e ps h
    exact ⟨r, (hread r).2 h, rfl, rfl⟩

/-- A text is read just when there are parts that it is written with. -/
theorem isSome_iff_of_written
    (h : ∀ e ps, (∃ r, read = .ok r ∧ engine r = e ∧ (parameters r).entries = ps) ↔ written e ps) :
    read.toOption.isSome = true ↔ ∃ e ps, written e ps := by
  simp only [← h]
  cases read with
  | error fault => simp [Except.toOption]
  | ok r => simp [Except.toOption]

/-- A text is refused if there are none. -/
theorem exists_error_of_not_written
    (h : ∀ e ps, (∃ r, read = .ok r ∧ engine r = e ∧ (parameters r).entries = ps) ↔ written e ps)
    (hno : ¬ ∃ e ps, written e ps) : ∃ fault, read = .error fault := by
  cases hread : read with
  | error fault => exact ⟨fault, rfl⟩
  | ok r => exact absurd ⟨_, _, (h _ _).1 ⟨r, hread, rfl, rfl⟩⟩ hno

end Readers

end Parameters

/-! ### Encrypted references -/

namespace EncryptedRef

open Parameters (writeSegment)

/-- A text is an encrypted reference with some engine and some parameters. -/
structure Written (s engine : String) (ps : List (String × String)) : Prop where
  /-- The text consists of these parts and nothing else. -/
  text : s = "encrypted:" ++ engine ++ String.join (ps.map fun p => "!" ++ p.1 ++ ":" ++ p.2)
  /-- The engine is not empty. -/
  present : engine ≠ ""
  /-- The engine holds no separator. -/
  whole : '!' ∉ engine.toList
  /-- The parameters can be spelled. -/
  parameters : Parameters.Spelled ["encrypted"] ['!'] ps

theorem text_eq (r : EncryptedRef) : r.text = "encrypted:" ++ r.engine ++
    String.join (r.parameters.entries.map fun p => "!" ++ p.1 ++ ":" ++ p.2) := by
  rw [← String.toList_inj, toList_text, Text.joinWith_cons_eq_flatMap, Parameters.write]
  simp [List.flatMap_map, writeSegment, grammar, encryptedScheme]

/-- A reference is written by its own text, if it can be written at all. -/
theorem written_iff {s : String} {r : EncryptedRef} :
    Written s r.engine r.parameters.entries ↔ s = r.text ∧ r.Valid := by
  have hspelled : Parameters.Spelled ["encrypted"] ['!'] r.parameters.entries ↔ _ :=
    Parameters.spelled_iff (g := grammar)
  constructor
  · intro h
    obtain ⟨hpresent, hlegal, hwhole⟩ := hspelled.1 h.parameters
    refine ⟨h.text.trans r.text_eq.symm, ?_⟩
    exact {
      engine := h.present
      engineWhole := h.whole
      parameters := hpresent
      legal := hlegal
      whole := fun e he => hwhole e he '!' (by simp) }
  · rintro ⟨rfl, hvalid⟩
    exact {
      text := r.text_eq
      present := hvalid.engine
      whole := hvalid.engineWhole
      parameters := hspelled.2
        ⟨hvalid.parameters, hvalid.legal, fun e he => by simpa using hvalid.whole e he⟩ }

/-- Only the first colon of a segment delimits, and colons may stand in the engine. -/
example : parse "encrypted:a:b!k:x:y!v:z" =
    .ok ⟨"a:b", ⟨[("k", "x:y"), ("v", "z")], by decide⟩⟩ := by rfl

/-- What is no reference does not begin like one, or it is refused. -/
theorem isReference_eq {s : String} : isReference s = (parse s).toOption.isSome := by
  unfold isReference parse
  cases Text.dropStart encryptedScheme.toList s.toList with
  | none => rfl
  | some rest => rfl

/-- **Encrypted references are read just as they are written**: a text is read as a reference with
some engine and some parameters if it consists of these and they are legal, the reference has this
text and is read back from it, and any other text is refused as one of the wrong form. -/
theorem reads_written (s : String) :
    (∀ engine ps, (∃ r, parse s = .ok r ∧ r.engine = engine ∧ r.parameters.entries = ps) ↔
      Written s engine ps) ∧
    (∀ r, parse s = .ok r → r.text = s ∧ parse r.text = .ok r) ∧
    ((¬ ∃ engine ps, Written s engine ps) → ∃ fault, parse s = .error fault ∧
      Resolver.encryptedRef s = .error (.invalidFormat (.encrypted fault))) ∧
    (isReference s = true ↔ ∃ engine ps, Written s engine ps) ∧
    ((parse? s).isSome = true ↔ ∃ engine ps, Written s engine ps) := by
  have hparts (engine : String) (ps : List (String × String)) :
      (∃ r, parse s = .ok r ∧ r.engine = engine ∧ r.parameters.entries = ps) ↔ Written s engine ps :=
    Parameters.exists_ok_iff_of_written (fun r => parse_eq_ok_iff.trans written_iff.symm)
      (fun engine ps h => ⟨⟨engine, ⟨ps, h.parameters.distinct⟩⟩, rfl, rfl⟩) engine ps
  have hsome := Parameters.isSome_iff_of_written hparts
  refine ⟨hparts, ?_, ?_, ?_, hsome⟩
  · intro r hr
    have htext : r.text = s := (parse_eq_ok_iff.1 hr).1.symm
    exact ⟨htext, htext ▸ hr⟩
  · intro hno
    obtain ⟨fault, hfault⟩ := Parameters.exists_error_of_not_written hparts hno
    exact ⟨fault, hfault, by rw [Resolver.encryptedRef, hfault]; rfl⟩
  · rwa [isReference_eq]

end EncryptedRef

/-! ### User secret references -/

namespace UserRef

open Parameters (writeSegment)

/-- A text is a user secret reference with some engine and some parameters. -/
structure Written (s engine : String) (ps : List (String × String)) : Prop where
  /-- The text consists of these parts and nothing else. -/
  text : s = "secret://" ++ engine ++ "?" ++
    String.intercalate "&" (ps.map fun p => p.1 ++ "=" ++ p.2)
  /-- The engine is an identifier: a letter or digit, followed by any of these and of three signs. -/
  identifier : ∃ c cs, engine.toList = c :: cs ∧ Text.LetterOrDigit c ∧
    ∀ d ∈ cs, Text.LetterOrDigit d ∨ d = '-' ∨ d = '_' ∨ d = '.'
  /-- The parameters can be spelled. -/
  parameters : Parameters.Spelled [] ['&', '\n'] ps

theorem isEngineChar_iff {c : Char} : isEngineChar c = true ↔
    Text.LetterOrDigit c ∨ c = '-' ∨ c = '_' ∨ c = '.' := by
  simp [isEngineChar, Text.isAlphanumeric_iff, or_assoc]

theorem isEngine_iff {cs : List Char} : isEngine cs = true ↔
    ∃ c ds, cs = c :: ds ∧ Text.LetterOrDigit c ∧
      ∀ d ∈ ds, Text.LetterOrDigit d ∨ d = '-' ∨ d = '_' ∨ d = '.' := by
  cases cs with
  | nil => simp [isEngine]
  | cons c ds =>
      simp only [isEngine, Bool.and_eq_true, List.all_eq_true, isEngineChar_iff,
        Text.isAlphanumeric_iff]
      constructor
      · intro h
        exact ⟨c, ds, rfl, h⟩
      · rintro ⟨c', ds', heq, h⟩
        obtain ⟨rfl, rfl⟩ := List.cons.inj heq
        exact h

theorem text_eq {r : UserRef} (h : r.parameters.entries ≠ []) : r.text =
    "secret://" ++ r.engine ++ "?" ++
      String.intercalate "&" (r.parameters.entries.map fun p => p.1 ++ "=" ++ p.2) := by
  have hsegments : Parameters.write grammar r.parameters =
      (r.parameters.entries.map fun p => p.1 ++ "=" ++ p.2).map String.toList := by
    simp [Parameters.write, writeSegment, grammar]
  rw [← String.toList_inj, toList_text, query_eq h, Text.joinWith_eq_intercalate, hsegments]
  simp [secretScheme]

/-- A reference is written by its own text, if it can be written at all. -/
theorem written_iff {s : String} {r : UserRef} :
    Written s r.engine r.parameters.entries ↔ s = r.text ∧ r.Valid := by
  have hspelled : Parameters.Spelled [] ['&', '\n'] r.parameters.entries ↔ _ :=
    Parameters.spelled_iff (g := grammar)
  constructor
  · intro h
    obtain ⟨hpresent, hlegal, hwhole⟩ := hspelled.1 h.parameters
    refine ⟨h.text.trans (text_eq hpresent).symm, ?_⟩
    exact {
      engine := isEngine_iff.2 h.identifier
      parameters := hpresent
      legal := hlegal
      whole := fun e he => hwhole e he '&' (by simp)
      oneLine := fun e he => hwhole e he '\n' (by simp) }
  · rintro ⟨rfl, hvalid⟩
    exact {
      text := text_eq hvalid.parameters
      identifier := isEngine_iff.1 hvalid.engine
      parameters := hspelled.2 ⟨hvalid.parameters, hvalid.legal, fun e he => by
        simpa using ⟨hvalid.whole e he, hvalid.oneLine e he⟩⟩ }

/-- Only the first question mark ends the engine, and only the first equals sign a name. -/
example : parse "secret://noop?v=a?b=c&k=x" =
    .ok ⟨"noop", ⟨[("v", "a?b=c"), ("k", "x")], by decide⟩⟩ := by rfl

theorem isReference_eq {s : String} : isReference s = (parse s).toOption.isSome := by
  unfold isReference parse
  cases Text.dropStart secretScheme.toList s.toList with
  | none => rfl
  | some rest => rfl

/-- **User secret references are read just as they are written**: a text is read as a reference with
some engine and some parameters if it consists of these and they are legal, the reference has this
text, is read back from it and names the field that its parameter says, and any other text is refused
as one of the wrong form. -/
theorem reads_written_query (s : String) :
    (∀ engine ps, (∃ r, parse s = .ok r ∧ r.engine = engine ∧ r.parameters.entries = ps) ↔
      Written s engine ps) ∧
    (∀ r, parse s = .ok r → r.text = s ∧ parse r.text = .ok r ∧
      ∀ v, r.field? = some v ↔ ("k", v) ∈ r.parameters.entries) ∧
    ((¬ ∃ engine ps, Written s engine ps) → ∃ fault, parse s = .error fault ∧
      Resolver.userRef s = .error (.invalidFormat (.user fault))) ∧
    (isReference s = true ↔ ∃ engine ps, Written s engine ps) := by
  have hparts (engine : String) (ps : List (String × String)) :
      (∃ r, parse s = .ok r ∧ r.engine = engine ∧ r.parameters.entries = ps) ↔ Written s engine ps :=
    Parameters.exists_ok_iff_of_written (fun r => parse_eq_ok_iff.trans written_iff.symm)
      (fun engine ps h => ⟨⟨engine, ⟨ps, h.parameters.distinct⟩⟩, rfl, rfl⟩) engine ps
  refine ⟨hparts, ?_, ?_, ?_⟩
  · intro r hr
    have htext : r.text = s := (parse_eq_ok_iff.1 hr).1.symm
    exact ⟨htext, htext ▸ hr, fun v => Table.mem_entries_iff.symm⟩
  · intro hno
    obtain ⟨fault, hfault⟩ := Parameters.exists_error_of_not_written hparts hno
    exact ⟨fault, hfault, by rw [Resolver.userRef, hfault]; rfl⟩
  · rw [isReference_eq]
    exact Parameters.isSome_iff_of_written hparts

end UserRef

end SecretResolver
