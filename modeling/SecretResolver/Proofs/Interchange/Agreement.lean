/-
**Texts for JSON and for YAML: the document.**

A text of the common grammar is one document, whether it is read as JSON or as YAML, up to the order
of fields: JSON sorts them by name.  The order is of no account to paths, so a reference that leads
into a JSON file finds what the JSON document has there although the file is read as YAML.

Main definitions:

* `Document.ordered` — a document with its fields in the order of their names;
* `Interchange.Alike` — bytes that mean one document as JSON and as YAML.

Main results:

* `Document.extract_ordered` — the order of fields is of no account to paths;
* `Document.ofJson_denotes` — a value and its node are one document up to that order;
* `Interchange.alike_of_whole` — **a text of the common grammar is one document**;
* `Interchange.not_alike_surrogates` — a pair of escapes is read as JSON only.
-/

import SecretResolver.Engine
import SecretResolver.Proofs.Interchange.AsJson
import SecretResolver.Proofs.Interchange.Nodes
import SecretResolver.Proofs.Text.Order

set_option relaxedAutoImplicit false
set_option autoImplicit false

namespace SecretResolver

namespace Document

open Interchange (Denotes Items Members)
open Json (Value)

/-! ### The order of fields -/

/-- Entries in the order of their names. -/
def byName (fields : List (String × Document)) : List (String × Document) :=
  fields.mergeSort fun a b => decide (a.1 ≤ b.1)

mutual

/-- The document with the fields of all mappings in the order of their names. -/
def ordered : Document → Document
  | .scalar text => .scalar text
  | .mapping fields => .mapping (byName (orderedFields fields))
  | .sequence items => .sequence (orderedItems items)
  | .null => .null

/-- The items with their fields in order. -/
def orderedItems : List Document → List Document
  | [] => []
  | d :: ds => ordered d :: orderedItems ds

/-- The fields, each with its own fields in order. -/
def orderedFields : List (String × Document) → List (String × Document)
  | [] => []
  | (name, d) :: fields => (name, ordered d) :: orderedFields fields

end

theorem find?_eq_head? (name : String) (fields : List (String × Document)) :
    Entries.find? name fields = ((fields.filter fun f => f.1 = name).head?).map Prod.snd := by
  induction fields with
  | nil => rfl
  | cons f fields ih =>
      rw [Entries.find?_cons, List.filter_cons]
      by_cases h : f.1 = name
      · simp [h]
      · simp [h, ih]

/-- Fields of one name stay in their order. -/
theorem filter_byName (name : String) (fields : List (String × Document)) :
    ((byName fields).filter fun f => f.1 = name) = fields.filter fun f => f.1 = name := by
  have hpairwise : (fields.filter fun f => f.1 = name).Pairwise
      fun a b => decide (a.1 ≤ b.1) = true := by
    refine List.pairwise_of_forall_mem_list fun a ha b hb => ?_
    have ha : a.1 = name := by simpa using (List.mem_filter.1 ha).2
    have hb : b.1 = name := by simpa using (List.mem_filter.1 hb).2
    exact decide_eq_true ((ha.trans hb.symm) ▸ String.le_refl a.1)
  have hsublist : (fields.filter fun f => f.1 = name).Sublist (byName fields) := by
    exact List.sublist_mergeSort (fun _ _ _ => Text.le_trans_by) Text.le_total_by hpairwise
      List.filter_sublist
  have hfiltered := hsublist.filter fun f => f.1 = name
  rw [List.filter_filter] at hfiltered
  simp only [Bool.and_self] at hfiltered
  exact (hfiltered.eq_of_length ((List.mergeSort_perm ..).filter _).length_eq.symm).symm

theorem find?_byName (name : String) (fields : List (String × Document)) :
    Entries.find? name (byName fields) = Entries.find? name fields := by
  rw [find?_eq_head?, find?_eq_head?, filter_byName]

theorem find?_orderedFields (name : String) : ∀ fields : List (String × Document),
    Entries.find? name (orderedFields fields) = (Entries.find? name fields).map ordered
  | [] => by simp [orderedFields]
  | (name', d) :: fields => by
      rw [orderedFields, Entries.find?_cons, Entries.find?_cons]
      split
      · rfl
      · exact find?_orderedFields name fields

theorem orderedItems_eq_map : ∀ items : List Document, orderedItems items = items.map ordered
  | [] => rfl
  | d :: ds => by rw [orderedItems, List.map_cons, orderedItems_eq_map ds]

/-! ### Paths -/

/-- What a segment selects does not depend on the order of fields. -/
theorem select_ordered (path : String) (d : Document) (segment : List Char) :
    d.ordered.select path segment = (d.select path segment).map ordered := by
  cases d with
  | scalar text => rfl
  | null => rfl
  | mapping fields =>
      simp only [ordered, select, find?_byName, find?_orderedFields]
      cases Entries.find? (String.ofList segment) fields <;> rfl
  | sequence items =>
      simp only [ordered, select, orderedItems_eq_map, List.length_map, List.getElem?_map]
      cases index? segment with
      | none => rfl
      | some i =>
          simp only
          cases items[i]? <;> rfl

theorem walk_ordered (path : String) (d : Document) (segments : List (List Char)) :
    walk path d.ordered segments = (walk path d segments).map ordered := by
  induction segments generalizing d with
  | nil => rfl
  | cons segment segments ih =>
      rw [walk, walk, select_ordered]
      cases d.select path segment with
      | error cause => rfl
      | ok d => exact ih d

/-- **The order of fields is of no account to paths.** -/
theorem extract_ordered (d : Document) (path : String) :
    d.ordered.extract path = d.extract path := by
  rw [extract, extract, walk_ordered]
  cases walk path d (Text.splitAll '.' path.toList) with
  | error cause => rfl
  | ok d => cases d <;> rfl

/-! ### Values -/

theorem names_memberNodes (ms : List (String × Value)) :
    Entries.names (ofYamlEntries (Yaml.memberNodes ms)) = ms.map Prod.fst := by
  induction ms with
  | nil => rfl
  | cons m ms ih =>
      obtain ⟨name, v⟩ := m
      have hname : yamlName? (Yaml.textNode name) = some name := rfl
      rw [Yaml.memberNodes, ofYamlEntries, hname, Entries.names_cons, List.map_cons, ih]

theorem names_ofJsonMembers (ms : List (String × Value)) :
    Entries.names (ofJsonMembers ms) = ms.map Prod.fst := by
  induction ms with
  | nil => rfl
  | cons m ms ih =>
      obtain ⟨name, v⟩ := m
      rw [ofJsonMembers, Entries.names_cons, List.map_cons, ih]

mutual

/-- **A value and its node are one document**, up to the order of fields. -/
theorem ofJson_denotes {depth : Nat} {v : Value} {cs : List Char} :
    Denotes depth v cs → ofJson v = (ofYaml (Yaml.nodeOf v)).ordered
  | .null _ => rfl
  | .flag _ _ => rfl
  | .integer _ _ => rfl
  | .text _ _ => rfl
  | .array _ h => by
      rw [ofJson, Yaml.nodeOf, ofYaml, ordered, ofJsonItems_denotes h]
  | @Denotes.object _ _ _ ms _ h hnames => by
      have hjson : (Entries.names (ofJsonMembers ms)).Nodup := by rwa [names_ofJsonMembers]
      have hyaml : (Entries.names (ofYamlEntries (Yaml.memberNodes ms))).Nodup := by
        rwa [names_memberNodes]
      rw [ofJson, sortedFields, Entries.gather_of_nodup hjson, Yaml.nodeOf, ofYaml, gathered,
        Entries.gather_of_nodup hyaml, ordered, ofJsonMembers_denotes h]
      rfl

theorem ofJsonItems_denotes {depth : Nat} {first : Bool} {vs : List Value} {body : List Char} :
    Items depth first vs body →
      ofJsonItems vs = orderedItems (ofYamlItems (Yaml.itemNodes vs))
  | .done _ _ => rfl
  | .more _ hv _ h => by
      rw [ofJsonItems, Yaml.itemNodes, ofYamlItems, orderedItems, ofJson_denotes hv,
        ofJsonItems_denotes h]

theorem ofJsonMembers_denotes {depth : Nat} {first : Bool} {ms : List (String × Value)}
    {body : List Char} : Members depth first ms body →
      ofJsonMembers ms = orderedFields (ofYamlEntries (Yaml.memberNodes ms))
  | .done _ _ => rfl
  | @Members.more _ _ name v ms _ _ _ _ _ _ _ _ _ _ _ _ hv _ h => by
      have hname : yamlName? (Yaml.textNode name) = some name := rfl
      rw [ofJsonMembers, Yaml.memberNodes, ofYamlEntries, hname, orderedFields, ofJson_denotes hv,
        ofJsonMembers_denotes h]

end

end Document

namespace Interchange

open Json (Value)

/-! ### Texts -/

/-- What a reference to the scalar at a path finds in a document. -/
def found (d : Document) (path : String) : Except SecretError Bytes :=
  match d.extract path with
  | .error cause => .error (.decryption cause)
  | .ok text => .ok (Utf8.ofString text)

/-- A reference to the scalar at a path finds what the YAML document has there. -/
theorem part_of_decodeYaml {r : EncryptedRef} {path : String} {contents : Bytes} {d : Document}
    (hpath : r.get? fieldParameter = some path) (hd : Document.decodeYaml contents = .ok d) :
    Location.part r contents = found d path := by
  cases htext : d.extract path with
  | error cause => simp [Location.part, hpath, hd, found, htext]
  | ok text => simp [Location.part, hpath, hd, found, htext]

/-- Bytes that mean one document as JSON and as YAML, up to the order of fields, and in which every
reference to a scalar finds what the JSON document has there. -/
def Alike (bs : Bytes) : Prop :=
  ∃ d j, Document.decodeYaml bs = .ok d ∧ Document.decodeJson bs = .ok j ∧ j = d.ordered ∧
    ∀ (r : EncryptedRef) (path : String), r.get? fieldParameter = some path →
      Location.part r bs = found j path

/-- **A text of the common grammar is one document** as JSON and as YAML. -/
theorem alike_of_whole {v : Value} {cs : List Char} (h : Whole v cs) : Alike (Utf8.encode cs) := by
  have hyaml : Document.decodeYaml (Utf8.encode cs) = .ok (Document.ofYaml (Yaml.nodeOf v)) := by
    simp only [Document.decodeYaml, Yaml.read_whole h]
  have hjson : Document.decodeJson (Utf8.encode cs) = .ok (Document.ofJson v) := by
    simp only [Document.decodeJson, read_whole h]
  have hsame : Document.ofJson v = (Document.ofYaml (Yaml.nodeOf v)).ordered := by
    obtain ⟨-, h, -⟩ := h
    exact Document.ofJson_denotes h
  refine ⟨_, _, hyaml, hjson, hsame, fun r path hpath => ?_⟩
  rw [hsame, part_of_decodeYaml hpath hyaml, found, found, Document.extract_ordered]

/-- An object on two lines. -/
def nested : List Char := "\x7b\"a\": [-7,\tnull],\r\n\"b\\u000a\" :\"\\/\"\x7d\t\n".toList

theorem alike_of_whole_nested :
    Whole (.object [("a", .array [.number (.integer (-7)), .null]), ("b\n", .text "/")]) nested ∧
      Alike (Utf8.encode nested) := by
  have hnil : Blanks [] := by decide
  have htab : Blanks ['\t'] := by decide
  have hlines : Blanks ['\r', '\n'] := by decide
  have hspace : Blanks [' '] := by decide
  have hinteger : Denotes 125 (.number (.integer (-7))) ['-', '7'] := .integer 125 rfl
  have harray : Denotes 126 (.array [.number (.integer (-7)), .null]) "[-7,\tnull]".toList :=
    .array hnil (.more .first hinteger hnil (.more (.comma htab) (.null 125) hnil
      (.done 125 false)))
  have ha : Text.Spelled Stands "a".toList ['a'] :=
    Text.Spelled.cons (Stands.ordinary (c := 'a') rfl) .nil
  have hfeed : Stands '\n' "\\u000a".toList := .number rfl rfl
  have hb : Text.Spelled Stands "b\n".toList "b\\u000a".toList :=
    Text.Spelled.cons (Stands.ordinary (c := 'b') rfl) (Text.Spelled.cons hfeed .nil)
  have hslash : Text.Spelled Stands "/".toList ['\\', '/'] :=
    Text.Spelled.cons (Stands.letter (l := '/') (c := '/') (by decide)) .nil
  have hbefore : Untabbed [] := by decide
  have hafter : Trailing ['\t', '\n'] := by decide
  have hgap : Inline [' '] := by decide
  have hempty : Inline [] := by decide
  have hmembers : Members 126 true
      [("a", .array [.number (.integer (-7)), .null]), ("b\n", .text "/")]
      "\"a\": [-7,\tnull],\r\n\"b\\u000a\" :\"\\/\"".toList :=
    .more .first ha hempty (by decide) hspace harray hnil
      (.more (.comma hlines) hb hgap (by decide) hnil (.text 126 hslash) hnil (.done 126 false))
  have hwhole : Whole (.object [("a", .array [.number (.integer (-7)), .null]), ("b\n", .text "/")])
      nested := .mk hbefore (.object hnil hmembers (by decide)) hafter
  exact ⟨hwhole, alike_of_whole hwhole⟩

/-- A character beyond 16 bits, written as a pair of escapes. -/
def surrogates : List Char := "\x7b\"k\":\"\\ud83d\\ude00\"\x7d".toList

/-- In JSON the pair is one character. -/
theorem json_surrogates :
    Json.read (Utf8.encode surrogates) = .ok (.object [("k", .text "😀")]) := by
  have hk : Text.Spelled Stands "k".toList ['k'] :=
    Text.Spelled.cons (Stands.ordinary (c := 'k') rfl) .nil
  have hescape : Json.Stands '😀' "\\ud83d\\ude00".toList :=
    .inr ⟨[117, 100, 56, 51, 100, 92, 117, 100, 101, 48, 48], by decide, fun _ => rfl⟩
  have hpair : Text.Spelled Json.Stands "😀".toList "\\ud83d\\ude00".toList :=
    Text.Spelled.cons hescape .nil
  have hvalue : Json.valueAt 126 (34 :: (Utf8.encode "\\ud83d\\ude00".toList ++ [34, 125])) =
      .ok (.text "😀", [125]) := by
    refine valueAt_scalar (by decide) ?_ 126
    exact congrArg (some ∘ Json.mapResult Value.text) (Json.text_spelled hpair [125])
  have hname := memberName?_lead .first hk
    (58 :: 34 :: (Utf8.encode "\\ud83d\\ude00".toList ++ [34, 125]))
  have hopen (bs : Bytes) : Json.skipBlanks (123 :: bs) = 123 :: bs := rfl
  have hbytes : Utf8.encode surrogates = 123 :: (Utf8.encode [] ++ (Utf8.encode (quotation ['k']) ++
      58 :: 34 :: (Utf8.encode "\\ud83d\\ude00".toList ++ [34, 125]))) := by decide
  rw [hbytes, Json.read, Json.whole, Json.maxDepth, Json.valueAt, hopen]
  simp only [Json.members_of_parts hname rfl hvalue]
  rfl

/-- A pair of escapes is one character in JSON.  YAML takes escapes one by one, and none of the two
is a character. -/
theorem not_alike_surrogates :
    Document.decodeJson (Utf8.encode surrogates) = .ok (.mapping [("k", .scalar "😀")]) ∧
      Document.decodeYaml (Utf8.encode surrogates) = .error (.yaml (.at_ ⟨1, 9⟩)) := by
  refine ⟨?_, ?_⟩
  · have hsorted : Document.sortedFields [("k", .scalar "😀")] = [("k", .scalar "😀")] :=
      List.mergeSort_singleton _
    rw [Document.decodeJson, json_surrogates]
    exact congrArg (fun fields => Except.ok (Document.mapping fields)) hsorted
  · have hcharacters : Yaml.characters (Utf8.encode surrogates) = some surrogates := by
      simp only [Yaml.characters, Utf8.decode_encode]
      rfl
    have hread : Yaml.read (Utf8.encode surrogates) = .error (.at_ ⟨1, 9⟩) := by
      rw [Yaml.read, hcharacters]
      rfl
    rw [Document.decodeYaml, hread]

end Interchange

end SecretResolver
