/-
**One document for three formats.**

What JSON, YAML and CBOR have in common are nulls, truth values, integers, texts, arrays, and objects
whose names are distinct texts.  Such a value has a form in each of the three, and the document of
each form is one and the same tree: every item and every field is there, and the order of fields is
that of the value, or in JSON that of the names.  Tags around nodes and around keys are of no account.

Main definitions:

* `Datum` — a value that all formats have, with `Datum.toJson`, `Datum.toYaml`, `Datum.toCbor`;
* `Datum.document` — its tree;
* `Yaml.Node.untagged`, `Cbor.Value.untagged` — what is left without tags.

Main results:

* `Document.ofYaml_untagged`, `Document.ofCbor_untagged` — **tags are of no account**;
* `Datum.conversions_agree` — **the documents of the three forms are one**.
-/

import SecretResolver.Proofs.Interchange.Agreement

set_option relaxedAutoImplicit false
set_option autoImplicit false

namespace SecretResolver

/-! ### Values that all formats have -/

/-- A value that all three formats have. -/
inductive Datum where
  | null
  | flag (b : Bool)
  | integer (n : Int)
  | text (s : String)
  | array (items : List Datum)
  | object (members : List (String × Datum))
  deriving Repr, Inhabited

namespace Datum

mutual

/-- No object of a value has a name twice. -/
def Distinct : Datum → Prop
  | .array items => ItemsDistinct items
  | .object members => (Entries.names members).Nodup ∧ MembersDistinct members
  | _ => True

/-- No object of some values has a name twice. -/
def ItemsDistinct : List Datum → Prop
  | [] => True
  | d :: ds => Distinct d ∧ ItemsDistinct ds

/-- No object of the values of some members has a name twice. -/
def MembersDistinct : List (String × Datum) → Prop
  | [] => True
  | (_, d) :: ms => Distinct d ∧ MembersDistinct ms

end

/-! ### Forms -/

mutual

/-- The form of a value in JSON. -/
def toJson : Datum → Json.Value
  | .null => .null
  | .flag b => .flag b
  | .integer n => .number (.integer n)
  | .text s => .text s
  | .array items => .array (itemsToJson items)
  | .object members => .object (membersToJson members)

/-- The forms of some values in JSON. -/
def itemsToJson : List Datum → List Json.Value
  | [] => []
  | d :: ds => toJson d :: itemsToJson ds

/-- The forms of some members in JSON. -/
def membersToJson : List (String × Datum) → List (String × Json.Value)
  | [] => []
  | (name, d) :: ms => (name, toJson d) :: membersToJson ms

end

mutual

/-- The form of a value in YAML. -/
def toYaml : Datum → Yaml.Node
  | .null => .scalar .null
  | .flag b => .scalar (.flag b)
  | .integer n => .scalar (.integer n)
  | .text s => .scalar (.text s)
  | .array items => .sequence (itemsToYaml items)
  | .object members => .mapping (membersToYaml members)

/-- The forms of some values in YAML. -/
def itemsToYaml : List Datum → List Yaml.Node
  | [] => []
  | d :: ds => toYaml d :: itemsToYaml ds

/-- The forms of some members in YAML. -/
def membersToYaml : List (String × Datum) → List (Yaml.Node × Yaml.Node)
  | [] => []
  | (name, d) :: ms => (.scalar (.text name), toYaml d) :: membersToYaml ms

end

mutual

/-- The form of a value in CBOR. -/
def toCbor : Datum → Cbor.Value
  | .null => .null
  | .flag b => .flag b
  | .integer n => .integer n
  | .text s => .text s
  | .array items => .array (itemsToCbor items)
  | .object members => .map (membersToCbor members)

/-- The forms of some values in CBOR. -/
def itemsToCbor : List Datum → List Cbor.Value
  | [] => []
  | d :: ds => toCbor d :: itemsToCbor ds

/-- The forms of some members in CBOR. -/
def membersToCbor : List (String × Datum) → List (Cbor.Value × Cbor.Value)
  | [] => []
  | (name, d) :: ms => (.text name, toCbor d) :: membersToCbor ms

end

mutual

/-- The tree of a value, with all its items and members. -/
def document : Datum → Document
  | .null => .null
  | .flag b => .scalar (if b then "true" else "false")
  | .integer n => .scalar (toString n)
  | .text s => .scalar s
  | .array items => .sequence (itemDocuments items)
  | .object members => .mapping (memberDocuments members)

/-- The trees of some values. -/
def itemDocuments : List Datum → List Document
  | [] => []
  | d :: ds => document d :: itemDocuments ds

/-- The trees of some members. -/
def memberDocuments : List (String × Datum) → List (String × Document)
  | [] => []
  | (name, d) :: ms => (name, document d) :: memberDocuments ms

end

theorem names_memberDocuments : ∀ ms : List (String × Datum),
    Entries.names (memberDocuments ms) = Entries.names ms
  | [] => rfl
  | (name, d) :: ms => by
      rw [memberDocuments, Entries.names_cons, Entries.names_cons, names_memberDocuments ms]

end Datum

/-! ### Tags -/

mutual

/-- A node without its tags and those of everything in it, keys included. -/
def Yaml.Node.untagged : Yaml.Node → Yaml.Node
  | .scalar s => .scalar s
  | .sequence items => .sequence (Yaml.untaggedItems items)
  | .mapping entries => .mapping (Yaml.untaggedEntries entries)
  | .tagged _ n => n.untagged

/-- Some nodes without tags. -/
def Yaml.untaggedItems : List Yaml.Node → List Yaml.Node
  | [] => []
  | n :: ns => n.untagged :: Yaml.untaggedItems ns

/-- Some entries without tags. -/
def Yaml.untaggedEntries : List (Yaml.Node × Yaml.Node) → List (Yaml.Node × Yaml.Node)
  | [] => []
  | (k, v) :: es => (k.untagged, v.untagged) :: Yaml.untaggedEntries es

end

mutual

/-- A data item without its tags and those of everything in it, keys included. -/
def Cbor.Value.untagged : Cbor.Value → Cbor.Value
  | .array items => .array (Cbor.untaggedItems items)
  | .map entries => .map (Cbor.untaggedEntries entries)
  | .tagged _ v => v.untagged
  | v => v

/-- Some items without tags. -/
def Cbor.untaggedItems : List Cbor.Value → List Cbor.Value
  | [] => []
  | v :: vs => v.untagged :: Cbor.untaggedItems vs

/-- Some entries without tags. -/
def Cbor.untaggedEntries : List (Cbor.Value × Cbor.Value) → List (Cbor.Value × Cbor.Value)
  | [] => []
  | (k, v) :: es => (k.untagged, v.untagged) :: Cbor.untaggedEntries es

end

namespace Document

/-- A key makes the same name without its tags. -/
theorem yamlName?_untagged : ∀ k : Yaml.Node, yamlName? k.untagged = yamlName? k
  | .scalar _ => rfl
  | .sequence _ => rfl
  | .mapping _ => rfl
  | .tagged _ n => yamlName?_untagged n

mutual

/-- **Tags are of no account** in YAML. -/
theorem ofYaml_untagged : ∀ n : Yaml.Node, ofYaml n.untagged = ofYaml n
  | .scalar _ => rfl
  | .sequence items => by
      rw [Yaml.Node.untagged, ofYaml, ofYaml, ofYamlItems_untagged items]
  | .mapping entries => by
      rw [Yaml.Node.untagged, ofYaml, ofYaml, ofYamlEntries_untagged entries]
  | .tagged _ n => by
      rw [Yaml.Node.untagged, ofYaml, ofYaml_untagged n]

theorem ofYamlItems_untagged : ∀ ns : List Yaml.Node,
    ofYamlItems (Yaml.untaggedItems ns) = ofYamlItems ns
  | [] => rfl
  | n :: ns => by
      rw [Yaml.untaggedItems, ofYamlItems, ofYamlItems, ofYaml_untagged n, ofYamlItems_untagged ns]

theorem ofYamlEntries_untagged : ∀ es : List (Yaml.Node × Yaml.Node),
    ofYamlEntries (Yaml.untaggedEntries es) = ofYamlEntries es
  | [] => rfl
  | (k, v) :: es => by
      rw [Yaml.untaggedEntries, ofYamlEntries, ofYamlEntries, yamlName?_untagged, ofYaml_untagged v,
        ofYamlEntries_untagged es]

end

/-- An item has the same text without its tags. -/
theorem cborText?_untagged : ∀ v : Cbor.Value, cborText? v.untagged = cborText? v
  | .integer _ => rfl
  | .real _ => rfl
  | .flag _ => rfl
  | .null => rfl
  | .text _ => rfl
  | .bytes _ => rfl
  | .array _ => rfl
  | .map _ => rfl
  | .tagged _ v => cborText?_untagged v

mutual

/-- **Tags are of no account** in CBOR. -/
theorem ofCbor_untagged : ∀ v : Cbor.Value, ofCbor v.untagged = ofCbor v
  | .integer _ => rfl
  | .real _ => rfl
  | .flag _ => rfl
  | .null => rfl
  | .text _ => rfl
  | .bytes _ => rfl
  | .array items => by
      rw [Cbor.Value.untagged, ofCbor, ofCbor, ofCborItems_untagged items]
  | .map entries => by
      rw [Cbor.Value.untagged, ofCbor, ofCbor, ofCborEntries_untagged entries]
  | .tagged _ v => by
      rw [Cbor.Value.untagged, ofCbor, ofCbor_untagged v]

theorem ofCborItems_untagged : ∀ vs : List Cbor.Value,
    ofCborItems (Cbor.untaggedItems vs) = ofCborItems vs
  | [] => rfl
  | v :: vs => by
      rw [Cbor.untaggedItems, ofCborItems, ofCborItems, ofCbor_untagged v, ofCborItems_untagged vs]

theorem ofCborEntries_untagged : ∀ es : List (Cbor.Value × Cbor.Value),
    ofCborEntries (Cbor.untaggedEntries es) = ofCborEntries es
  | [] => rfl
  | (k, v) :: es => by
      rw [Cbor.untaggedEntries, ofCborEntries, ofCborEntries, cborText?_untagged, ofCbor_untagged v,
        ofCborEntries_untagged es]

end

end Document

namespace Datum

open Document

/-! ### Documents of forms -/

mutual

/-- The document of the form in YAML. -/
theorem ofYaml_toYaml : ∀ d : Datum, d.Distinct → ofYaml d.toYaml = d.document
  | .null, _ => rfl
  | .flag _, _ => rfl
  | .integer _, _ => rfl
  | .text _, _ => rfl
  | .array items, h => by
      rw [toYaml, ofYaml, document, ofYamlItems_toYaml items h]
  | .object members, ⟨hnames, h⟩ => by
      rw [toYaml, ofYaml, document, ofYamlEntries_toYaml members h, gathered,
        Entries.gather_of_nodup (by rwa [names_memberDocuments])]

theorem ofYamlItems_toYaml : ∀ ds : List Datum, ItemsDistinct ds →
    ofYamlItems (itemsToYaml ds) = itemDocuments ds
  | [], _ => rfl
  | d :: ds, ⟨hd, hds⟩ => by
      rw [itemsToYaml, ofYamlItems, itemDocuments, ofYaml_toYaml d hd, ofYamlItems_toYaml ds hds]

theorem ofYamlEntries_toYaml : ∀ ms : List (String × Datum), MembersDistinct ms →
    ofYamlEntries (membersToYaml ms) = memberDocuments ms
  | [], _ => rfl
  | (name, d) :: ms, ⟨hd, hms⟩ => by
      have hname : yamlName? (.scalar (.text name)) = some name := rfl
      rw [membersToYaml, ofYamlEntries, hname, memberDocuments, ofYaml_toYaml d hd,
        ofYamlEntries_toYaml ms hms]

end

mutual

/-- The document of the form in CBOR. -/
theorem ofCbor_toCbor : ∀ d : Datum, d.Distinct → ofCbor d.toCbor = d.document
  | .null, _ => rfl
  | .flag _, _ => rfl
  | .integer _, _ => rfl
  | .text _, _ => rfl
  | .array items, h => by
      rw [toCbor, ofCbor, document, ofCborItems_toCbor items h]
  | .object members, ⟨hnames, h⟩ => by
      rw [toCbor, ofCbor, document, ofCborEntries_toCbor members h, gathered,
        Entries.gather_of_nodup (by rwa [names_memberDocuments])]

theorem ofCborItems_toCbor : ∀ ds : List Datum, ItemsDistinct ds →
    ofCborItems (itemsToCbor ds) = itemDocuments ds
  | [], _ => rfl
  | d :: ds, ⟨hd, hds⟩ => by
      rw [itemsToCbor, ofCborItems, itemDocuments, ofCbor_toCbor d hd, ofCborItems_toCbor ds hds]

theorem ofCborEntries_toCbor : ∀ ms : List (String × Datum), MembersDistinct ms →
    ofCborEntries (membersToCbor ms) = memberDocuments ms
  | [], _ => rfl
  | (name, d) :: ms, ⟨hd, hms⟩ => by
      have hname : cborText? (.text name) = some name := rfl
      rw [membersToCbor, ofCborEntries, hname, memberDocuments, ofCbor_toCbor d hd,
        ofCborEntries_toCbor ms hms]

end

theorem names_orderedFields : ∀ fields : List (String × Document),
    Entries.names (orderedFields fields) = Entries.names fields
  | [] => rfl
  | (name, d) :: fields => by
      rw [orderedFields, Entries.names_cons, Entries.names_cons, names_orderedFields fields]

mutual

/-- The document of the form in JSON has its fields in the order of their names. -/
theorem ofJson_toJson : ∀ d : Datum, d.Distinct → ofJson d.toJson = d.document.ordered
  | .null, _ => rfl
  | .flag _, _ => rfl
  | .integer _, _ => rfl
  | .text _, _ => rfl
  | .array items, h => by
      rw [toJson, ofJson, document, ordered, ofJsonItems_toJson items h]
  | .object members, ⟨hnames, h⟩ => by
      have hfields := ofJsonMembers_toJson members h
      have hdistinct : (Entries.names (ofJsonMembers (membersToJson members))).Nodup := by
        rwa [hfields, names_orderedFields, names_memberDocuments]
      rw [toJson, ofJson, document, ordered, sortedFields, Entries.gather_of_nodup hdistinct,
        hfields]
      rfl

theorem ofJsonItems_toJson : ∀ ds : List Datum, ItemsDistinct ds →
    ofJsonItems (itemsToJson ds) = orderedItems (itemDocuments ds)
  | [], _ => rfl
  | d :: ds, ⟨hd, hds⟩ => by
      rw [itemsToJson, ofJsonItems, itemDocuments, orderedItems, ofJson_toJson d hd,
        ofJsonItems_toJson ds hds]

theorem ofJsonMembers_toJson : ∀ ms : List (String × Datum), MembersDistinct ms →
    ofJsonMembers (membersToJson ms) = orderedFields (memberDocuments ms)
  | [], _ => rfl
  | (name, d) :: ms, ⟨hd, hms⟩ => by
      rw [membersToJson, ofJsonMembers, memberDocuments, orderedFields, ofJson_toJson d hd,
        ofJsonMembers_toJson ms hms]

end

/-- **The documents of the three forms are one**, whatever tags are put around nodes and keys: that
of the value, with the fields in the order of their names where it comes from JSON. -/
theorem conversions_agree {d : Datum} (hd : d.Distinct) {n : Yaml.Node}
    (hn : n.untagged = d.toYaml) {c : Cbor.Value} (hc : c.untagged = d.toCbor) :
    ofYaml n = d.document ∧ ofCbor c = d.document ∧ ofJson d.toJson = d.document.ordered := by
  refine ⟨?_, ?_, ofJson_toJson d hd⟩
  · rw [← ofYaml_untagged, hn, ofYaml_toYaml d hd]
  · rw [← ofCbor_untagged, hc, ofCbor_toCbor d hd]

/-- An object with an array in it. -/
def parcel : Datum := .object [("b", .array [.integer (-7), .null]), ("a", .flag true)]

/-- Its form in YAML, with tags around the whole, around a name and around an item. -/
def taggedNode : Yaml.Node :=
  .tagged "whole" (.mapping [
    (.tagged "outer" (.tagged "inner" (.scalar (.text "b"))),
      .sequence [.tagged "number" (.scalar (.integer (-7))), .scalar .null]),
    (.scalar (.text "a"), .scalar (.flag true))])

/-- Its form in CBOR, with tags around a name, around an array and around a truth value. -/
def taggedItem : Cbor.Value :=
  .map [
    (.tagged 5 (.text "b"), .tagged 6 (.array [.integer (-7), .null])),
    (.text "a", .tagged 7 (.tagged 8 (.flag true)))]

theorem conversions_agree_parcel :
    parcel.Distinct ∧ taggedNode.untagged = parcel.toYaml ∧
      taggedItem.untagged = parcel.toCbor ∧ ofYaml taggedNode = parcel.document ∧
        ofCbor taggedItem = parcel.document ∧ ofJson parcel.toJson = parcel.document.ordered := by
  have hdistinct : parcel.Distinct := by simp [parcel, Distinct, MembersDistinct, ItemsDistinct]
  have hnode : taggedNode.untagged = parcel.toYaml := rfl
  have hitem : taggedItem.untagged = parcel.toCbor := rfl
  exact ⟨hdistinct, hnode, hitem, conversions_agree hdistinct hnode hitem⟩

end Datum

end SecretResolver
