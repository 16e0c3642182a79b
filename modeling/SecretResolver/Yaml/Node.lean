/-
**YAML nodes.**

The tree that a document denotes.  Aliases are replaced by the nodes of their anchors, as far as
this does not blow up the document; no mapping has a key twice.  Of tags only those of the core
types change a scalar; tags of one's own are kept around the node.

Main definitions:

* `Yaml.Node`, `Node.same` — nodes and their equality as keys;
* `Yaml.Linked`, `Linked.ofEvents` — events with aliases resolved to anchors;
* `Yaml.Schema` — how scalars are resolved;
* `Yaml.nodeAt` — the node at the front of some events, nested at most so deep;
* `Yaml.read` — the node of a stream.
-/

import SecretResolver.Yaml.Event
import SecretResolver.Yaml.Plain

set_option relaxedAutoImplicit false
set_option autoImplicit false

namespace SecretResolver

namespace Yaml

/-- A node. -/
inductive Node where
  | scalar (s : Scalar)
  | sequence (items : List Node)
  /-- Keys with values, in the order in which they are written. -/
  | mapping (entries : List (Node × Node))
  | tagged (tag : String) (node : Node)
  deriving Repr, Inhabited

/-- Equality of scalars: a double is compared by value, and never equal to an integer. -/
def Scalar.same : Scalar → Scalar → Bool
  | .real x, .real y => x.sameNumber y
  | s, t => s == t

mutual

/-- Equality of nodes; the order of the entries of a mapping does not matter. -/
def Node.same : Node → Node → Bool
  | .scalar s, .scalar t => s.same t
  | .sequence xs, .sequence ys => sameItems xs ys
  | .mapping es, .mapping fs => es.length == fs.length && hasEntries es fs
  | .tagged a x, .tagged b y => a == b && x.same y
  | _, _ => false

/-- Equality of the items of two sequences. -/
def sameItems : List Node → List Node → Bool
  | [], [] => true
  | x :: xs, y :: ys => x.same y && sameItems xs ys
  | _, _ => false

/-- Whether a mapping has all of some entries. -/
def hasEntries : List (Node × Node) → List (Node × Node) → Bool
  | [], _ => true
  | (k, v) :: es, fs => (fs.any fun f => k.same f.1 && v.same f.2) && hasEntries es fs

end

/-! ### Faults -/

/-- Why a stream is no node. -/
inductive Fault where
  | at_ (p : Position)
  /-- There is more than one document, or an alias was followed too often. -/
  | nowhere
  deriving Repr, DecidableEq

/-- The fault at a place. -/
def Fault.ofMark (m : Mark) : Fault := .at_ m.position

/-! ### Anchors -/

/-- An event with its alias resolved to the number of an anchor. -/
inductive Item where
  | again (anchor : Nat)
  | scalar (tag : Option (List Char)) (text : List Char) (style : ScalarStyle)
  | openSequence (tag : Option (List Char))
  | closeSequence
  | openMapping (tag : Option (List Char))
  | closeMapping
  deriving Repr, DecidableEq

/-- An item with its place. -/
abbrev PlacedItem := Item × Mark

/-- The items of a document. -/
structure Linked where
  items : List PlacedItem
  /-- The anchors by number, each with the index of its node. -/
  starts : List (Nat × Nat)
  fault : Fault
  deriving Repr

/-- The anchors met so far.  A name that comes again takes the number of names as its own, so that
a later name may take over the number that it has. -/
structure Anchors where
  numbers : List (List Char × Nat)
  starts : List (Nat × Nat)
  deriving Repr

namespace Anchors

/-- No anchors. -/
def none : Anchors := ⟨[], []⟩

/-- The number of an anchor. -/
def number? (a : Anchors) (name : List Char) : Option Nat :=
  (a.numbers.find? fun e => e.1 == name).map Prod.snd

/-- Adds the anchor of the node at an index. -/
def add (a : Anchors) (name : Option (List Char)) (index : Nat) : Anchors :=
  match name with
  | Option.none => a
  | some name =>
      let n := a.numbers.length
      ⟨(name, n) :: a.numbers.filter (fun e => e.1 != name),
        (n, index) :: a.starts.filter fun s => s.1 != n⟩

end Anchors

/-- An event without its anchor. -/
def Item.ofEvent (a : Anchors) : Event → Option Item
  | .alias name => (a.number? name).map .again
  | .scalar _ tag text style => some (.scalar tag text style)
  | .sequenceStart _ tag => some (.openSequence tag)
  | .sequenceEnd => some .closeSequence
  | .mappingStart _ tag => some (.openMapping tag)
  | .mappingEnd => some .closeMapping

/-- The anchor of an event. -/
def Event.anchor? : Event → Option (List Char)
  | .scalar anchor _ _ _ => anchor
  | .sequenceStart anchor _ => anchor
  | .mappingStart anchor _ => anchor
  | _ => none

/-- Resolves aliases, up to the first one whose anchor is not known. -/
def linkFrom (fault : Fault) : Anchors → (index : Nat) → List PlacedEvent → Linked
  | a, _, [] => ⟨[], a.starts, fault⟩
  | a, index, (e, m) :: es =>
      match Item.ofEvent a e with
      | none => ⟨[], a.starts, .ofMark m⟩
      | some item =>
          let d := linkFrom fault (a.add e.anchor? index) (index + 1) es
          { d with items := (item, m) :: d.items }

/-- The items of the events of a stream. -/
def Linked.ofEvents (s : EventStream) : Linked :=
  linkFrom ((s.fault.map Fault.ofMark).getD .nowhere) .none 0 s.events

/-- The items from the node of an anchor on. -/
def Linked.from_ (d : Linked) (anchor : Nat) : List PlacedItem :=
  match d.starts.find? fun s => s.1 == anchor with
  | some (_, index) => d.items.drop index
  | none => []

/-- How often aliases may be followed. -/
def Linked.maxJumps (d : Linked) : Nat := 100 * d.items.length

/-! ### Tags -/

/-- A text without the mark in front, unless it is the mark alone. -/
def unmarked : List Char → List Char
  | '!' :: c :: cs => c :: cs
  | cs => cs

/-- The tag that is kept around a node: one of one's own, without its marks. -/
def ownTag? (tag : Option (List Char)) : Option String :=
  match tag with
  | some ('!' :: cs) => some (String.ofList (unmarked (unmarked ('!' :: cs))))
  | _ => none

/-- The core types that a scalar may be tagged with. -/
inductive CoreType where
  | null
  | flag
  | integer
  | real
  deriving Repr, DecidableEq

/-- What the tags of the core types begin with. -/
def corePrefix : String := "tag:yaml.org,2002:"

/-- The core type of a tag. -/
def coreType? (tag : Option (List Char)) : Option CoreType :=
  match tag.bind (Text.dropStart corePrefix.toList) with
  | none => none
  | some cs =>
      match String.ofList cs with
      | "null" => some .null
      | "bool" => some .flag
      | "int" => some .integer
      | "float" => some .real
      | _ => none

/-- The value of a scalar of a core type. -/
def coreScalar? (s : String) : CoreType → Option Scalar
  | .null => if isNull s then some .null else none
  | .flag => (flag? s).map .flag
  | .integer => ((integer? s).filter isWord).map .integer
  | .real => (real? s).map .real

/-- The value of a scalar.  Within a tag of one's own it is as if there were no tag. -/
def scalarValue? (tag : Option (List Char)) (text : List Char) (style : ScalarStyle) :
    Option Scalar :=
  let s := String.ofList text
  match tag, coreType? tag with
  | _, some core => coreScalar? s core
  | some ('!' :: _), none => if style = .plain then scalarOf? s else some (.text s)
  | some _, none => some (.text s)
  | none, none => if style = .plain then scalarOf? s else some (.text s)

/-- The node with the tag that is kept around it. -/
def withTag (tag : Option (List Char)) (n : Node) : Node :=
  match ownTag? tag with
  | some t => .tagged t n
  | none => n

/-! ### Nodes -/

/-- A walk over items: it counts the aliases that were followed and returns the items after what
it found. -/
abbrev Walk (α : Type) := (jumps : Nat) → List PlacedItem → Except Fault (α × Nat × List PlacedItem)

/-- The nodes up to the end of a sequence. -/
def itemsBy (d : Linked) (node : Walk Node) : (fuel : Nat) → Walk (List Node)
  | 0, _, _ => .error d.fault
  | _ + 1, _, [] => .error d.fault
  | _ + 1, jumps, (.closeSequence, _) :: rest => .ok ([], jumps, rest)
  | fuel + 1, jumps, rest =>
      match node jumps rest with
      | .error fault => .error fault
      | .ok (n, jumps, rest) =>
          match itemsBy d node fuel jumps rest with
          | .error fault => .error fault
          | .ok (ns, jumps, rest) => .ok (n :: ns, jumps, rest)

/-- The entries up to the end of a mapping that begins at `m`; `before` are those already read.  A
key must not come twice. -/
def entriesBy (d : Linked) (m : Mark) (node : Walk Node) :
    (fuel : Nat) → (before : List (Node × Node)) → Walk (List (Node × Node))
  | 0, _, _, _ => .error d.fault
  | _ + 1, _, _, [] => .error d.fault
  | _ + 1, _, jumps, (.closeMapping, _) :: rest => .ok ([], jumps, rest)
  | fuel + 1, before, jumps, rest =>
      match node jumps rest with
      | .error fault => .error fault
      | .ok (k, jumps, rest) =>
          -- a key that comes twice is a fault of the mapping, and lies where it begins
          if before.any fun e => e.1.same k then .error (.ofMark m)
          else
            match node jumps rest with
            | .error fault => .error fault
            | .ok (v, jumps, rest) =>
                match entriesBy d m node fuel ((k, v) :: before) jumps rest with
                | .error fault => .error fault
                | .ok (es, jumps, rest) => .ok ((k, v) :: es, jumps, rest)

/-- How the scalars of a document are resolved: the value of a scalar with its tag, text and
style. -/
abbrev Schema := Option (List Char) → List Char → ScalarStyle → Option Scalar

/-- The node that an item begins; without `inner` there may be no collection. -/
def content (schema : Schema) (d : Linked) (inner : Option (Walk Node)) (item : Item) (m : Mark) :
    Walk Node :=
  fun jumps rest =>
    match item, inner with
    | .scalar tag text style, _ =>
        match schema tag text style with
        | none => .error (.ofMark m)
        | some s => .ok (withTag tag (.scalar s), jumps, rest)
    | .openSequence tag, some node =>
        match itemsBy d node (rest.length + 1) jumps rest with
        | .error fault => .error fault
        | .ok (ns, jumps, rest) => .ok (withTag tag (.sequence ns), jumps, rest)
    | .openMapping tag, some node =>
        match entriesBy d m node (rest.length + 1) [] jumps rest with
        | .error fault => .error fault
        | .ok (es, jumps, rest) => .ok (withTag tag (.mapping es), jumps, rest)
    -- the end of a collection that was not begun, or a collection that is nested too deep
    | _, _ => .error (.ofMark m)

/-- The node at the front of the items, read through an alias. -/
def walkNode (schema : Schema) (d : Linked) (inner : Option (Walk Node)) : Walk Node
  | _, [] => .error d.fault
  | jumps, (.again anchor, _) :: rest =>
      if d.maxJumps < jumps + 1 then .error .nowhere
      else
        match d.from_ anchor with
        | [] => .error d.fault
        | (item, m) :: after =>
            match content schema d inner item m (jumps + 1) after with
            | .error fault => .error fault
            -- reading goes on after the alias, not after the node it stands for
            | .ok (n, jumps, _) => .ok (n, jumps, rest)
  | jumps, (item, m) :: rest => content schema d inner item m jumps rest

/-- The node at the front of the items, with collections nested at most `depth` deep. -/
def nodeAt (schema : Schema) (d : Linked) : (depth : Nat) → Walk Node
  | 0 => walkNode schema d none
  | depth + 1 => walkNode schema d (some (nodeAt schema d depth))

/-- How deep collections may be nested. -/
def maxDepth : Nat := 128

/-- The node of the events of a stream; a stream without a document holds no value. -/
def Node.ofEvents (schema : Schema) (s : EventStream) : Except Fault Node :=
  if !s.present then .ok (.scalar .null)
  else
    let d := Linked.ofEvents s
    match nodeAt schema d maxDepth 0 d.items with
    | .error fault => .error fault
    | .ok (n, _, _) =>
        if s.fault.isSome then .error d.fault else if s.more then .error .nowhere else .ok n

/-- The node of a stream, its scalars resolved by the core types. -/
def read (bs : Bytes) : Except Fault Node :=
  match characters bs with
  | none => .error (.ofMark .zero)
  | some cs => Node.ofEvents scalarValue? (events cs)

end Yaml

end SecretResolver
