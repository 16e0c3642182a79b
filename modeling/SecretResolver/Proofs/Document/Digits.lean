/-
**Which integers keep their digits.**

An integer in a document is meant to be kept as its text.  A JSON number and a plain YAML scalar are
read as machine numbers first, though, and a CBOR item may be a tagged string of bytes, so the
digits that were written come back for some integers only: those of 64 bits in JSON; those and, as
there is no finite double for them, the very great ones in YAML; and in CBOR all that are in a head
and the tagged ones of at most 16 bytes whose number has 64 bits.  In each format the digits come
back in every way in which the field is looked at, or in none.

Main definitions:

* `Document.Retains` — when a field comes back with its digits;
* `Document.DigitsKept` — when an integer comes back from each of the formats.

Main results:

* `Document.Retains.of_field` — the ways of looking at a field agree;
* `Document.digitsKept` — **exactly some integers keep their digits**;
* `Document.not_retains_json` — one that does not.
-/

import SecretResolver.Proofs.Cbor.Integers
import SecretResolver.Proofs.Json.Integers
import SecretResolver.Proofs.Yaml.Integers

set_option relaxedAutoImplicit false
set_option autoImplicit false

namespace SecretResolver

namespace Document

variable {name : String} {n : Int} {x : Document} {t : String}
  {decoded : Except DecryptionCause Document} {kept : Prop}

/-! ### A document with one field -/

theorem gather_single {β : Type} (name : String) (v : β) :
    Entries.gather [(name, v)] = [(name, v)] :=
  Entries.gather_of_nodup (by simp)

/-- The path to the only field is its name. -/
theorem extract_field (hname : '.' ∉ name.toList) :
    (Document.mapping [(name, x)]).extract name = .ok t ↔ x = .scalar t := by
  have hsplit : Text.splitAll '.' name.toList = [name.toList] := Text.splitAll_of_not_mem hname
  have hwalk : walk name (.mapping [(name, x)]) [name.toList] = .ok x := by
    simp [walk, select, Entries.find?_cons]
  rw [extract, hsplit, hwalk]
  cases x <;> simp

/-- The named texts of a mapping with one field are that of the field. -/
theorem namedTexts_field :
    (∃ table, (Document.mapping [(name, x)]).namedTexts = .ok table ∧ table.get? name = some t) ↔
      x = .scalar t := by
  cases x with
  | scalar text =>
      have htexts : (Document.mapping [(name, .scalar text)]).namedTexts =
          .ok (Table.ofEntries [(name, text)]) := rfl
      have hget : (Table.ofEntries [(name, text)]).get? name = some text := by
        simp [Table.get?, Table.ofEntries, gather_single, Entries.find?_cons]
      simp [htexts, hget]
  | mapping fields => simp [namedTexts, fieldTexts]
  | sequence items => simp [namedTexts, fieldTexts]
  | null => simp [namedTexts, fieldTexts]

/-- When an integer that is written as the field `name` comes back: as the only field of the
document, at its path, and among the named texts.  It does exactly if `kept`. -/
structure Retains (name : String) (n : Int) (decoded : Except DecryptionCause Document)
    (kept : Prop) : Prop where
  tree : decoded = .ok (.mapping [(name, .scalar (toString n))]) ↔ kept
  path : '.' ∉ name.toList →
    ((∃ d, decoded = .ok d ∧ d.extract name = .ok (toString n)) ↔ kept)
  texts : (∃ d table, decoded = .ok d ∧ d.namedTexts = .ok table ∧
    table.get? name = some (toString n)) ↔ kept

/-- **The ways of looking at a field agree**, as long as the document has no other field. -/
theorem Retains.of_field
    (hform : ∀ d, decoded = .ok d →
      ∃ x, d = .mapping [(name, x)] ∧ (x = .scalar (toString n) → kept))
    (hkept : kept → decoded = .ok (.mapping [(name, .scalar (toString n))])) :
    Retains name n decoded kept where
  tree := by
    refine ⟨fun h => ?_, hkept⟩
    obtain ⟨x, hx, hfits⟩ := hform _ h
    exact hfits (by simpa using hx.symm)
  path hname := by
    refine ⟨?_, fun h => ⟨_, hkept h, (extract_field hname).2 rfl⟩⟩
    rintro ⟨d, hd, hextract⟩
    obtain ⟨x, rfl, hfits⟩ := hform d hd
    exact hfits ((extract_field hname).1 hextract)
  texts := by
    constructor
    · rintro ⟨d, table, hd, htexts⟩
      obtain ⟨x, rfl, hfits⟩ := hform d hd
      exact hfits (namedTexts_field.1 ⟨table, htexts⟩)
    · intro h
      obtain ⟨table, htexts⟩ := namedTexts_field.2 (rfl : Document.scalar (toString n) = _)
      exact ⟨_, table, hkept h, htexts⟩

theorem gathered_single (name : String) (x : Document) :
    gathered [(name, x)] = .mapping [(name, x)] := by
  rw [gathered, gather_single]

/-! ### JSON -/

theorem ofJson_object (name : String) (v : Json.Value) :
    ofJson (.object [(name, v)]) = .mapping [(name, ofJson v)] := by
  simp only [ofJson, ofJsonMembers, sortedFields, gather_single, List.mergeSort_singleton]

theorem ofJson_real_ne (x : Binary64) (n : Int) :
    ofJson (.number (.real x)) ≠ .scalar (toString n) := fun h =>
  FloatStyle.signedExponent_ne_toString x n (Document.scalar.inj h)

/-- A JSON number keeps its digits if it has 64 bits, wherever it stands. -/
theorem json_place (n : Int) (depth : Nat) {rest : Bytes} (hrest : Interchange.Follows rest) :
    (∃ v, Json.valueAt depth (Utf8.encode (toString n).toList ++ rest) = .ok (v, rest) ∧
        ofJson v = .scalar (toString n)) ↔ Yaml.isWord n = true := by
  constructor
  · rintro ⟨v, hv, htext⟩
    by_contra hn
    rw [Bool.not_eq_true] at hn
    obtain ⟨-, x, rfl⟩ := Json.valueAt_toString_large hn hrest hv
    exact ofJson_real_ne x n htext
  · intro hn
    exact ⟨_, Interchange.valueAt_integer hn hrest depth, rfl⟩

/-- An integer comes back from JSON if it has 64 bits. -/
theorem retains_json {spelled : List Char}
    (hname : Text.Spelled Json.Stands name.toList spelled) (n : Int) :
    Retains name n (decodeJson (Utf8.encode (Json.fieldText spelled n)))
      (Yaml.isWord n = true) := by
  apply Retains.of_field
  · intro d hd
    by_cases hn : Yaml.isWord n = true
    · rw [decodeJson, Json.read_fieldText hname hn] at hd
      exact ⟨_, (Except.ok.inj hd).symm.trans (ofJson_object name _), fun _ => hn⟩
    · rw [Bool.not_eq_true] at hn
      rw [decodeJson] at hd
      split at hd
      · exact nomatch hd
      · rename_i v hread
        obtain ⟨x, rfl⟩ := Json.read_fieldText_large hname hn hread
        exact ⟨_, (Except.ok.inj hd).symm.trans (ofJson_object name _),
          fun htext => absurd htext (ofJson_real_ne x n)⟩
  · intro hn
    rw [decodeJson, Json.read_fieldText hname hn]
    exact congrArg Except.ok (ofJson_object name _)

/-! ### YAML -/

theorem ofYaml_scalar_eq_iff {s : Yaml.Scalar} :
    ofYaml (.scalar s) = .scalar t ↔ yamlText? s = some t := by
  rw [ofYaml]
  cases yamlText? s <;> simp

theorem ofYaml_mapping (name : String) (v : Yaml.Node) :
    ofYaml (.mapping [(Yaml.textNode name, v)]) = .mapping [(name, ofYaml v)] :=
  gathered_single name _

/-- A plain scalar keeps its digits if it has 64 bits or no finite double, wherever it stands. -/
theorem yaml_place (n : Int) :
    (∃ s, Yaml.scalarValue? none (toString n).toList .plain = some s ∧
        ofYaml (.scalar s) = .scalar (toString n)) ↔ Yaml.KeepsDigits n := by
  have hplain : Yaml.scalarValue? none (toString n).toList .plain =
      Yaml.scalarOf? (String.ofList (toString n).toList) := rfl
  simp only [hplain, String.ofList_toList, ofYaml_scalar_eq_iff, ← Yaml.text_scalarOf?_iff,
    Option.map_eq_some_iff]

/-- An integer comes back from YAML if it has 64 bits or no finite double. -/
theorem retains_yaml (hname : Yaml.isSimpleKey name = true) (n : Int) :
    Retains name n (decodeYaml (Utf8.encode (Yaml.fieldLine name (toString n).toList)))
      (Yaml.KeepsDigits n) := by
  have hread := Yaml.read_fieldLine hname (Yaml.bare_toString n)
  apply Retains.of_field
  · intro d hd
    rw [decodeYaml] at hd
    split at hd
    · exact nomatch hd
    · rename_i v hv
      obtain ⟨s, hs, rfl⟩ := (hread v).1 hv
      exact ⟨_, (Except.ok.inj hd).symm.trans (ofYaml_mapping name _),
        fun htext => (yaml_place n).1 ⟨s, hs, htext⟩⟩
  · intro hkept
    obtain ⟨s, hs, htext⟩ := (yaml_place n).2 hkept
    rw [decodeYaml, (hread _).2 ⟨s, hs, rfl⟩]
    refine congrArg Except.ok ((ofYaml_mapping name _).trans ?_)
    rw [htext]

/-! ### CBOR -/

theorem ofCbor_map (name : String) (v : Cbor.Value) :
    ofCbor (.map [(.text name, v)]) = .mapping [(name, ofCbor v)] :=
  gathered_single name _

/-- A field comes back from CBOR if its item is the integer. -/
theorem retains_cbor (hname : (Utf8.ofString name).length < 2 ^ 64) {item : Bytes}
    {r : Except Cbor.Stop Cbor.Value}
    (hitem : Cbor.itemBy (Cbor.itemAfter (Cbor.maxDepth - 1)) item = r.map fun v => (v, []))
    (hkept : (∃ v, r = .ok v ∧ ofCbor v = .scalar (toString n)) ↔ kept) :
    Retains name n (decodeCbor (Cbor.writeField name item)) kept := by
  have hread := Cbor.read_writeField hname hitem
  apply Retains.of_field
  · intro d hd
    rw [decodeCbor] at hd
    split at hd
    · exact nomatch hd
    · rename_i v hv
      obtain ⟨w, hw, rfl⟩ := (hread v).1 hv
      exact ⟨_, (Except.ok.inj hd).symm.trans (ofCbor_map name w),
        fun htext => hkept.1 ⟨w, hw, htext⟩⟩
  · intro h
    obtain ⟨w, hw, htext⟩ := hkept.2 h
    rw [decodeCbor, (hread _).2 ⟨w, hw, rfl⟩]
    refine congrArg Except.ok ((ofCbor_map name w).trans ?_)
    rw [htext]

theorem ofCbor_tagged_bytes {tag : Nat} {bs : Bytes} :
    ofCbor (.tagged tag (.bytes bs)) = .scalar t ↔ Utf8.text? bs = some t := by
  have hbytes : ofCbor (.tagged tag (.bytes bs)) = ((Utf8.text? bs).map .scalar).getD .null := by
    simp [ofCbor, cborText?]
  rw [hbytes]
  cases Utf8.text? bs <;> simp

/-- A tagged string of bytes that is read as an integer has few bytes and a small number. -/
theorem ofCbor_largeItem_iff (negative : Bool) (bs : Bytes) :
    (∃ v, Cbor.largeItem negative bs = .ok v ∧
        ofCbor v = .scalar (toString (Cbor.largeNumber negative bs))) ↔
      bs.length ≤ Cbor.integerBytes ∧ Cbor.ofBigEndian bs < 2 ^ 64 := by
  by_cases hlength : bs.length ≤ Cbor.integerBytes
  · by_cases hsmall : Cbor.ofBigEndian bs < 2 ^ 64
    · exact iff_of_true ⟨_, Cbor.largeItem_small hlength hsmall, rfl⟩ ⟨hlength, hsmall⟩
    · refine iff_of_false ?_ fun h => hsmall h.2
      rintro ⟨v, hv, htext⟩
      obtain rfl := Cbor.largeItem_large hlength hsmall hv
      -- without the zeros in front it is the same number
      have hnumber : Cbor.largeNumber negative (bs.dropWhile (· == 0)) =
          Cbor.largeNumber negative bs := by
        rw [Cbor.largeNumber, Cbor.largeNumber, Cbor.ofBigEndian_dropWhile]
      rw [← hnumber] at htext
      exact Cbor.text?_ne_digits negative _ (ofCbor_tagged_bytes.1 htext)
  · refine iff_of_false ?_ fun h => hlength h.1
    rintro ⟨v, hv, htext⟩
    rw [Cbor.largeItem, if_neg hlength] at hv
    obtain rfl := Except.ok.inj hv
    exact Cbor.text?_ne_digits negative bs (ofCbor_tagged_bytes.1 htext)

/-- A tagged string of bytes keeps its digits in the same cases, wherever it stands. -/
theorem cbor_place (negative : Bool) {bs : Bytes} (hbytes : bs.length < 2 ^ 64) (depth : Nat)
    (rest : Bytes) :
    (∃ v, Cbor.itemBy (Cbor.itemAfter (depth + 1)) (Cbor.writeLarge negative bs ++ rest) =
          .ok (v, rest) ∧
        ofCbor v = .scalar (toString (Cbor.largeNumber negative bs))) ↔
      bs.length ≤ Cbor.integerBytes ∧ Cbor.ofBigEndian bs < 2 ^ 64 := by
  rw [Cbor.item_writeLarge hbytes, ← ofCbor_largeItem_iff]
  cases Cbor.largeItem negative bs <;> simp [Except.map]

/-! ### All formats -/

/-- When an integer comes back with its digits from each of the formats: at any place, and from
there as a field of a document. -/
structure DigitsKept (name : String) (n : Int) : Prop where
  /-- As a JSON number, after which the text does not go on as one. -/
  jsonPlace : ∀ depth rest, Interchange.Follows rest →
    ((∃ v, Json.valueAt depth (Utf8.encode (toString n).toList ++ rest) = .ok (v, rest) ∧
      ofJson v = .scalar (toString n)) ↔ Yaml.isWord n = true)
  json : ∀ spelled, Text.Spelled Json.Stands name.toList spelled →
    Retains name n (decodeJson (Utf8.encode (Json.fieldText spelled n))) (Yaml.isWord n = true)
  /-- As a plain YAML scalar without a tag. -/
  yamlPlace : (∃ s, Yaml.scalarValue? none (toString n).toList .plain = some s ∧
    ofYaml (.scalar s) = .scalar (toString n)) ↔ Yaml.KeepsDigits n
  yaml : Retains name n (decodeYaml (Utf8.encode (Yaml.fieldLine name (toString n).toList)))
    (Yaml.KeepsDigits n)
  /-- As the head of a CBOR item. -/
  headPlace : -2 ^ 64 ≤ n → n < 2 ^ 64 → ∀ depth rest,
    Cbor.itemBy (Cbor.itemAfter depth) (Cbor.writeInteger n ++ rest) = .ok (.integer n, rest) ∧
      ofCbor (.integer n) = .scalar (toString n)
  head : -2 ^ 64 ≤ n → n < 2 ^ 64 →
    Retains name n (decodeCbor (Cbor.writeField name (Cbor.writeInteger n))) True
  /-- As a tagged string of bytes. -/
  taggedPlace : ∀ negative bs, bs.length < 2 ^ 64 → Cbor.largeNumber negative bs = n →
    ∀ depth rest,
      ((∃ v, Cbor.itemBy (Cbor.itemAfter (depth + 1)) (Cbor.writeLarge negative bs ++ rest) =
            .ok (v, rest) ∧ ofCbor v = .scalar (toString n)) ↔
        bs.length ≤ Cbor.integerBytes ∧ Cbor.ofBigEndian bs < 2 ^ 64)
  tagged : ∀ negative bs, bs.length < 2 ^ 64 → Cbor.largeNumber negative bs = n →
    Retains name n (decodeCbor (Cbor.writeField name (Cbor.writeLarge negative bs)))
      (bs.length ≤ Cbor.integerBytes ∧ Cbor.ofBigEndian bs < 2 ^ 64)

/-- **Exactly some integers keep their digits**, of whatever size they are. -/
theorem digitsKept (hkey : Yaml.isSimpleKey name = true)
    (hlength : (Utf8.ofString name).length < 2 ^ 64) (n : Int) : DigitsKept name n where
  jsonPlace depth _ hrest := json_place n depth hrest
  json _ hspelled := retains_json hspelled n
  yamlPlace := yaml_place n
  yaml := retains_yaml hkey n
  headPlace hlow hhigh _ rest := ⟨Cbor.item_writeInteger hlow hhigh rest, rfl⟩
  head hlow hhigh := by
    have hitem : Cbor.itemBy (Cbor.itemAfter (Cbor.maxDepth - 1)) (Cbor.writeInteger n ++ []) =
        .ok (.integer n, []) := Cbor.item_writeInteger hlow hhigh []
    rw [List.append_nil] at hitem
    exact retains_cbor (r := .ok (.integer n)) hlength hitem (iff_of_true ⟨_, rfl, rfl⟩ trivial)
  taggedPlace negative bs hbytes hn depth rest := by
    subst hn
    exact cbor_place negative hbytes depth rest
  tagged negative bs hbytes hn := by
    subst hn
    have hitem : Cbor.itemBy (Cbor.itemAfter (Cbor.maxDepth - 1))
        (Cbor.writeLarge negative bs ++ []) =
          (Cbor.largeItem negative bs).map fun v => (v, []) := Cbor.item_writeLarge hbytes []
    rw [List.append_nil] at hitem
    exact retains_cbor hlength hitem (ofCbor_largeItem_iff negative bs)

theorem digitsKept_port : Yaml.isSimpleKey "port" = true ∧
    (Utf8.ofString "port").length < 2 ^ 64 ∧ DigitsKept "port" 18446744073709551616 :=
  ⟨by decide, by decide, digitsKept (by decide) (by decide) _⟩

/-- The first integer of more than 64 bits does not come back from JSON: a double's text does. -/
theorem not_retains_json :
    Json.fieldText ['k'] 18446744073709551616 = "\x7b\"k\":18446744073709551616\x7d".toList ∧
      ((decodeJson (Utf8.encode (Json.fieldText ['k'] 18446744073709551616))).bind
        fun d => d.extract "k").toOption = some "1.8446744073709552e+19" ∧
      ¬ Retains "k" 18446744073709551616
        (decodeJson (Utf8.encode (Json.fieldText ['k'] 18446744073709551616))) True := by
  refine ⟨by decide, by decide +kernel, fun h => ?_⟩
  have hspelled : Text.Spelled Json.Stands "k".toList ['k'] :=
    Text.spelled_flatMap (f := Json.writeChar) fun c _ => Json.stands_writeChar c
  have hword := (retains_json hspelled 18446744073709551616).tree.1 (h.tree.2 trivial)
  exact absurd hword (by decide)

end Document

end SecretResolver
