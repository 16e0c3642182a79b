/-
**Payloads that come back.**

What a payload is encoded as decodes to that payload again.  The way back leads through a document:
the texts become scalars with names, and the payload is gathered from them anew.  YAML and CBOR keep
the order of the names; JSON sorts by name, so there the payload comes back up to that order.

Main definitions:

* `Document.ofTexts` — the document that texts with names are;
* `Payload.Measured` — texts whose sizes can be counted in 64 bits.

Main results:

* `Payload.ofDocument_ofTexts` — the payload of a document of texts;
* `Payload.decodeAs_json`, `Payload.decodeAs_yaml`, `Payload.decodeAs_cbor` — each encoding by
  itself;
* `Payload.sameAs_decode_encode`, `Payload.decode_encode_yaml` — **payloads come back**.
-/

import SecretResolver.Payload.Coding
import SecretResolver.Proofs.Cbor.Written
import SecretResolver.Proofs.Json.Written
import SecretResolver.Proofs.Yaml.ReadBack

set_option relaxedAutoImplicit false
set_option autoImplicit false

namespace SecretResolver

/-! ### Documents of texts -/

namespace Document

/-- Texts with names, as the fields of a document. -/
def textFields (es : List (String × String)) : List (String × Document) :=
  es.map fun e => (e.1, .scalar e.2)

/-- The document that texts with names are. -/
def ofTexts (es : List (String × String)) : Document := .mapping (textFields es)

theorem names_textFields (es : List (String × String)) :
    Entries.names (textFields es) = Entries.names es := by
  simp [textFields, Entries.names]

theorem fieldTexts_textFields (es : List (String × String)) :
    fieldTexts (textFields es) = .ok es := by
  induction es with
  | nil => rfl
  | cons e es ih =>
      have hcons : textFields (e :: es) = (e.1, .scalar e.2) :: textFields es := rfl
      rw [hcons, fieldTexts, ih]

theorem gathered_textFields {es : List (String × String)} (h : (Entries.names es).Nodup) :
    gathered (textFields es) = ofTexts es := by
  rw [gathered, Entries.gather_of_nodup (by rwa [names_textFields]), ofTexts]

/-- The fields of a document of texts in the order of their names. -/
theorem sortedFields_textFields {es : List (String × String)} (h : (Entries.names es).Nodup) :
    ∃ fs : List (String × String), fs.Perm es ∧ sortedFields (textFields es) = textFields fs := by
  refine ⟨es.mergeSort fun a b => decide (a.1 ≤ b.1), List.mergeSort_perm .., ?_⟩
  rw [sortedFields, Entries.gather_of_nodup (by rwa [names_textFields])]
  exact (List.map_mergeSort (f := fun e : String × String => (e.1, Document.scalar e.2))
    fun _ _ _ _ => rfl).symm

theorem ofJsonMembers_textValues (es : List (String × String)) :
    ofJsonMembers (Json.textValues es) = textFields es := by
  induction es with
  | nil => rfl
  | cons e es ih =>
      have hcons : Json.textValues (e :: es) = (e.1, .text e.2) :: Json.textValues es := rfl
      rw [hcons, ofJsonMembers, ih, ofJson]
      rfl

theorem ofYamlEntries_textEntries (es : List (String × String)) :
    ofYamlEntries (Yaml.textEntries es) = textFields es := by
  induction es with
  | nil => rfl
  | cons e es ih =>
      have hcons : Yaml.textEntries (e :: es) =
          (Yaml.textNode e.1, Yaml.textNode e.2) :: Yaml.textEntries es := rfl
      rw [hcons, ofYamlEntries, Yaml.textNode, yamlName?, ih]
      rfl

theorem ofCborEntries_textEntries (es : List (String × String)) :
    ofCborEntries (Cbor.textEntries es) = textFields es := by
  induction es with
  | nil => rfl
  | cons e es ih =>
      have hcons : Cbor.textEntries (e :: es) = (.text e.1, .text e.2) :: Cbor.textEntries es := rfl
      rw [hcons, ofCborEntries, cborText?, ih]
      rfl

end Document

namespace Payload

/-- The payload of a document of texts. -/
theorem ofDocument_ofTexts {es : List (String × String)} (h : (Entries.names es).Nodup) :
    ofDocument (.ofTexts es) .named = .ok (.named ⟨es, h⟩) := by
  have htable : Table.ofEntries es = ⟨es, h⟩ := Table.ext_entries (Entries.gather_of_nodup h)
  simp only [ofDocument, Document.ofTexts, Document.namedTexts, Document.fieldTexts_textFields,
    htable]
  rfl

/-- A payload whose texts and whose number of texts can be counted in 64 bits, as every payload
can that a memory holds. -/
def Measured : Payload → Prop
  | .named values => values.size < 2 ^ 64 ∧ ∀ e ∈ values.entries,
      (Utf8.ofString e.1).length < 2 ^ 64 ∧ (Utf8.ofString e.2).length < 2 ^ 64
  | .single value => (Utf8.ofString value).length < 2 ^ 64

/-! ### Each encoding -/

variable {p : Payload}

/-- What is written as a JSON object comes back, its texts in the order of their names, with nothing or
with blanks after it. -/
theorem decodeAs_jsonObject (values : Table String) {rest : Bytes}
    (hrest : Json.skipBlanks rest = []) :
    ∃ q, decodeAs (Utf8.encode (jsonObject values.entries) ++ rest) .named .json = .ok q ∧
      q.sameAs (.named values) = true := by
  obtain ⟨fs, hperm, hsorted⟩ := Document.sortedFields_textFields values.distinct
  have hfs : (Entries.names fs).Nodup :=
    (List.Perm.map Prod.fst hperm).nodup_iff.2 values.distinct
  refine ⟨.named ⟨fs, hfs⟩, ?_, Table.sameAs_of_perm hperm⟩
  rw [← ofDocument_ofTexts hfs, Document.ofTexts, ← hsorted]
  simp only [decodeAs, jsonObject, Document.decode, Document.decodeJson,
    Json.read_writeMembers _ hrest, Document.ofJson, Document.ofJsonMembers_textValues]

/-- What is written as JSON comes back, its texts in the order of their names. -/
theorem decodeAs_json (p : Payload) :
    ∃ q, decodeAs (p.encodeAs .json) p.kind .json = .ok q ∧ q.sameAs p = true := by
  cases p with
  | single value =>
      refine ⟨.single value, ?_, by simp [sameAs]⟩
      simp only [decodeAs, encodeAs, Document.decode, Document.decodeJson, Json.read_writeText,
        Document.ofJson]
      rfl
  | named values =>
      have hnone : Json.skipBlanks [] = [] := rfl
      have hobject := decodeAs_jsonObject values hnone
      rwa [List.append_nil] at hobject

/-- What is written as YAML comes back as it was. -/
theorem decodeAs_yaml (p : Payload) : decodeAs (p.encodeAs .yaml) p.kind .yaml = .ok p := by
  cases p with
  | single value =>
      simp only [decodeAs, encodeAs, Document.decode, Document.decodeYaml, Yaml.read_writeDocument,
        Yaml.textNode, Document.ofYaml]
      rfl
  | named values =>
      simp only [decodeAs, encodeAs, Document.decode, Document.decodeYaml,
        Yaml.read_writeMapping values.distinct, Document.ofYaml,
        Document.ofYamlEntries_textEntries, Document.gathered_textFields values.distinct, kind,
        ofDocument_ofTexts values.distinct]

/-- What is written as CBOR comes back as it was. -/
theorem decodeAs_cbor (hp : p.Measured) :
    decodeAs (p.encodeAs .cbor) p.kind .cbor = .ok p := by
  cases p with
  | single value =>
      simp only [decodeAs, encodeAs, Document.decode, Document.decodeCbor, Cbor.read_writeText hp,
        Document.ofCbor]
      rfl
  | named values =>
      simp only [decodeAs, encodeAs, Document.decode, Document.decodeCbor,
        Cbor.read_writeMap hp.1 hp.2, Document.ofCbor, Document.ofCborEntries_textEntries,
        Document.gathered_textFields values.distinct, kind, ofDocument_ofTexts values.distinct]

/-! ### By the names of kinds and encodings -/

theorem ofName?_of_sameIgnoringCase {e : Encoding} {name : String}
    (h : Text.sameIgnoringCase e.name name = true) : Encoding.ofName? name = some e := by
  rw [Text.sameIgnoringCase, beq_iff_eq] at h
  rw [← Encoding.ofName?_name e]
  simp only [Encoding.ofName?, Text.sameIgnoringCase, h]

/-- Under a name of an encoding, a payload is encoded in that encoding. -/
theorem encode_of_name {e : Encoding} {name : String}
    (hname : Text.sameIgnoringCase e.name name = true) (p : Payload) :
    p.encode name = .ok (p.encodeAs e) := by
  rw [encode, payloadEncoding, ofName?_of_sameIgnoringCase hname]

/-- Under a name of an encoding, bytes are decoded in that encoding. -/
theorem decode_of_name {e : Encoding} {name : String} {bs : Bytes} {kind : PayloadKind} {q : Payload}
    (hname : Text.sameIgnoringCase e.name name = true) (hq : decodeAs bs kind e = .ok q) :
    decode bs kind.name name = .ok q := by
  simp only [decode, payloadKind, PayloadKind.ofName?_name, payloadEncoding,
    ofName?_of_sameIgnoringCase hname, hq]
  rfl

/-- Under a name of an encoding, a payload is encoded and decoded in that encoding. -/
theorem decode_encode_of_name {e : Encoding} {name : String} {q : Payload}
    (hname : Text.sameIgnoringCase e.name name = true)
    (hq : decodeAs (p.encodeAs e) p.kind e = .ok q) :
    ∃ bs, p.encode name = .ok bs ∧ decode bs p.kind.name name = .ok q :=
  ⟨p.encodeAs e, encode_of_name hname p, decode_of_name hname hq⟩

/-- **Payloads come back** from YAML as they were, whatever their names and texts look like. -/
theorem decode_encode_yaml (p : Payload) :
    ∃ bs, p.encode "yaml" = .ok bs ∧ decode bs p.kind.name "yaml" = .ok p :=
  decode_encode_of_name (e := .yaml) (by decide +kernel) (decodeAs_yaml p)

/-- **Payloads come back** from JSON and from CBOR, whatever the letter case of the name of the
encoding; the heads of CBOR count in 64 bits. -/
theorem sameAs_decode_encode (p : Payload) (name : String)
    (h : Text.sameIgnoringCase "json" name = true ∨
      Text.sameIgnoringCase "cbor" name = true ∧ p.Measured) :
    ∃ bs q, p.encode name = .ok bs ∧ decode bs p.kind.name name = .ok q ∧ q.sameAs p = true := by
  rcases h with hname | ⟨hname, hp⟩
  · obtain ⟨q, hq, hsame⟩ := decodeAs_json p
    obtain ⟨bs, hbs, hdecode⟩ := decode_encode_of_name (e := .json) hname hq
    exact ⟨bs, q, hbs, hdecode, hsame⟩
  · obtain ⟨bs, hbs, hdecode⟩ := decode_encode_of_name (e := .cbor) hname (decodeAs_cbor hp)
    exact ⟨bs, p, hbs, hdecode, sameAs_refl p⟩

/-- An empty name, a control character, a quote and characters of two and of four bytes, in the
encoding that counts. -/
theorem sameAs_decode_encode_unicode :
    let p : Payload := .named ⟨[("", "\x01\"é"), ("😀", "")], by decide⟩
    (Text.sameIgnoringCase "json" "Cbor" = true ∨
        Text.sameIgnoringCase "cbor" "Cbor" = true ∧ p.Measured) ∧
      ∃ bs q, p.encode "Cbor" = .ok bs ∧ decode bs p.kind.name "Cbor" = .ok q ∧
        q.sameAs p = true := by
  intro p
  have hp : Text.sameIgnoringCase "json" "Cbor" = true ∨
      Text.sameIgnoringCase "cbor" "Cbor" = true ∧ p.Measured := by
    refine .inr ⟨by decide +kernel, by decide, ?_⟩
    intro e he
    simp only [List.mem_cons, List.not_mem_nil, or_false] at he
    rcases he with rfl | rfl <;> decide
  exact ⟨hp, sameAs_decode_encode p "Cbor" hp⟩

end Payload

end SecretResolver
