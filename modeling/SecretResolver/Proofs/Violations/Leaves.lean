/-
**No violation is lost.**

A report of broken rules is a tree: fields have messages, or are records or lists of records with
fields of their own.  Its leaves are the fields with messages, each with the way that leads to it.  The
flattened report has one line for every leaf and no other line, and a line tells the whole way and all
messages.

What keeps the way readable is that every field has a name: the path of a record without a name would
be taken for the top.

Main definitions:

* `Violations.Segment`, `Violations.Leaf` — fields with messages, and the way to them;
* `Violations.HasLeaf` — a report has a leaf;
* `Violation.Proper`, `Violations.Proper` — fields have names, each its own;
* `Violations.leavesOf` — the leaves of a report in the order of their lines;
* `Violations.Flattened` — the flattened report is that of the leaves.

Main results:

* `Violations.linesAt_eq` — the lines below a path are those of the leaves;
* `Violations.mem_leavesOf_iff`, `Violations.nodup_leavesOf` — every leaf is listed, once;
* `Violations.flattened_of_proper` — **no violation is lost**, and none is made up;
* `Settings.proper_violations` — whatever the settings, the report on them is a proper one.
-/

import Mathlib.Data.List.Nodup
import Mathlib.Data.List.Perm.Basic
import SecretResolver.Settings.Basic

set_option relaxedAutoImplicit false
set_option autoImplicit false

namespace SecretResolver

/-! ### Reports -/

/-- Fields have names, and each its own. -/
def Violations.Named (fields : Violations) : Prop :=
  (∀ f ∈ fields, f.1 ≠ "") ∧ (fields.map Prod.fst).Nodup

/-- The fields below a field have names, each its own, and the items of lists have indices of their
own. -/
inductive Violation.Proper : Violation → Prop where
  | messages (texts : List (Option String)) : Proper (.messages texts)
  | record {fields : Violations} (named : fields.Named) (below : ∀ f ∈ fields, Proper f.2) :
      Proper (.record fields)
  | list {items : List (Nat × Violations)} (indexed : (items.map Prod.fst).Nodup)
      (named : ∀ item ∈ items, item.2.Named) (below : ∀ item ∈ items, ∀ f ∈ item.2, Proper f.2) :
      Proper (.list items)

namespace Violations

/-- The fields of a report have names, each its own, at every depth. -/
def Proper (vs : Violations) : Prop := (Violation.record vs).Proper

/-! ### Leaves -/

/-- A field with others below it, and the item that they belong to if it is a list. -/
structure Segment where
  name : String
  index? : Option Nat
  deriving DecidableEq

/-- A field in words. -/
def Segment.text (s : Segment) : String :=
  match s.index? with
  | none => s.name
  | some i => s.name ++ "[" ++ toString i ++ "]"

/-- A field with messages. -/
structure Leaf where
  /-- The fields that it is below, from the top. -/
  above : List Segment
  name : String
  /-- Nothing stands for a message that was not given. -/
  texts : List (Option String)
  deriving DecidableEq

namespace Leaf

/-- The way to a leaf. -/
def path (l : Leaf) : String := ".".intercalate (l.above.map Segment.text ++ [l.name])

/-- What a report says about a leaf. -/
def line (l : Leaf) : String :=
  l.path ++ ": " ++ ", ".intercalate (l.texts.map fun t => t.getD "Invalid value")

/-- A leaf of what is below a field. -/
def below (s : Segment) (l : Leaf) : Leaf := { l with above := s :: l.above }

/-- A leaf of what is below several fields. -/
def under (before : List Segment) (l : Leaf) : Leaf := { l with above := before ++ l.above }

/-- The name of the field at the top. -/
def root (l : Leaf) : String :=
  match l.above with
  | [] => l.name
  | s :: _ => s.name

theorem under_below (before : List Segment) (s : Segment) (l : Leaf) :
    (l.below s).under before = l.under (before ++ [s]) := by
  simp [below, under]

theorem below_inj {s s' : Segment} {l l' : Leaf} (h : l.below s = l'.below s') :
    s = s' ∧ l = l' := by
  obtain ⟨above, name, texts⟩ := l
  obtain ⟨above', name', texts'⟩ := l'
  simp only [below, mk.injEq, List.cons.injEq] at h
  obtain ⟨⟨hs, rfl⟩, rfl, rfl⟩ := h
  exact ⟨hs, rfl⟩

end Leaf

/-- A report has a leaf. -/
inductive HasLeaf : Violations → Leaf → Prop where
  | messages {vs : Violations} {name : String} {texts : List (Option String)}
      (h : (name, .messages texts) ∈ vs) : HasLeaf vs ⟨[], name, texts⟩
  | record {vs fields : Violations} {name : String} {l : Leaf} (h : (name, .record fields) ∈ vs)
      (hl : HasLeaf fields l) : HasLeaf vs (l.below ⟨name, none⟩)
  | item {vs fields : Violations} {name : String} {items : List (Nat × Violations)} {i : Nat}
      {l : Leaf} (h : (name, .list items) ∈ vs) (hi : (i, fields) ∈ items)
      (hl : HasLeaf fields l) : HasLeaf vs (l.below ⟨name, some i⟩)

mutual

/-- The leaves of some fields. -/
def leavesOf : List (String × Violation) → List Leaf
  | [] => []
  | (name, v) :: fields => leavesAt name v ++ leavesOf fields

/-- The leaves of one field. -/
def leavesAt (name : String) : Violation → List Leaf
  | .messages texts => [⟨[], name, texts⟩]
  | .record fields => (leavesOf fields).map (Leaf.below ⟨name, none⟩)
  | .list items => leavesOfItems name items

/-- The leaves of the items of a list. -/
def leavesOfItems (name : String) : List (Nat × List (String × Violation)) → List Leaf
  | [] => []
  | (i, fields) :: items =>
      (leavesOf fields).map (Leaf.below ⟨name, some i⟩) ++ leavesOfItems name items

end

theorem leavesOf_eq (vs : Violations) : leavesOf vs = vs.flatMap fun f => leavesAt f.1 f.2 := by
  induction vs with
  | nil => rw [leavesOf, List.flatMap_nil]
  | cons f vs ih => rw [leavesOf, ih, List.flatMap_cons]

theorem leavesOfItems_eq (name : String) (items : List (Nat × Violations)) :
    leavesOfItems name items =
      items.flatMap fun item => (leavesOf item.2).map (Leaf.below ⟨name, some item.1⟩) := by
  induction items with
  | nil => rw [leavesOfItems, List.flatMap_nil]
  | cons item items ih => rw [leavesOfItems, ih, List.flatMap_cons]

theorem linesOf_eq (path : String) (vs : Violations) :
    linesOf path vs = vs.flatMap fun f => linesAt (join path f.1) f.2 := by
  induction vs with
  | nil => rw [linesOf, List.flatMap_nil]
  | cons f vs ih => rw [linesOf, ih, List.flatMap_cons]

theorem linesOfItems_eq (path : String) (items : List (Nat × Violations)) :
    linesOfItems path items = items.flatMap fun item => linesOf s!"{path}[{item.1}]" item.2 := by
  induction items with
  | nil => rw [linesOfItems, List.flatMap_nil]
  | cons item items ih => rw [linesOfItems, ih, List.flatMap_cons]

/-! ### Lines -/

/-- The path of a field below others. -/
def pathTo (before : List Segment) (name : String) : String :=
  ".".intercalate (before.map Segment.text ++ [name])

theorem pathTo_nil (name : String) : pathTo [] name = name := String.intercalate_singleton

/-- The path of a field below another is made of both. -/
theorem pathTo_concat (before : List Segment) (s : Segment) (name : String) :
    pathTo (before ++ [s]) name = pathTo before s.text ++ "." ++ name := by
  rw [pathTo, List.map_append, List.map_singleton,
    String.intercalate_append_of_ne_nil (by simp) (by simp), String.intercalate_singleton, pathTo]

theorem pathTo_ne_empty (before : List Segment) {name : String} (h : name ≠ "") :
    pathTo before name ≠ "" := by
  unfold pathTo
  cases before with
  | nil => rwa [List.map_nil, List.nil_append, String.intercalate_singleton]
  | cons s before =>
      rw [String.intercalate_append_of_ne_nil (by simp) (by simp), String.intercalate_singleton]
      intro hempty
      exact h (String.append_eq_empty_iff.1 hempty).2

theorem join_pathTo (before : List Segment) {s : Segment} (h : s.text ≠ "") (name : String) :
    join (pathTo before s.text) name = pathTo (before ++ [s]) name := by
  rw [join, if_neg, pathTo_concat]
  · rfl
  · rw [String.isEmpty_iff]
    exact pathTo_ne_empty before h

/-- What is added to the last name is added to the path. -/
theorem pathTo_append (before : List Segment) (name more : String) :
    pathTo before (name ++ more) = pathTo before name ++ more := by
  cases before with
  | nil => rw [pathTo_nil, pathTo_nil]
  | cons s before =>
      have hne : (s :: before).map Segment.text ≠ [] := by simp
      rw [pathTo, pathTo, String.intercalate_append_of_ne_nil hne (by simp),
        String.intercalate_append_of_ne_nil hne (by simp), String.intercalate_singleton,
        String.intercalate_singleton, String.append_assoc, String.append_assoc, String.append_assoc]

theorem pathTo_item (before : List Segment) (name : String) (i : Nat) :
    s!"{pathTo before name}[{i}]" = pathTo before (Segment.text ⟨name, some i⟩) := by
  have htext : Segment.text ⟨name, some i⟩ = name ++ ("[" ++ toString i ++ "]") := by
    simp [Segment.text, String.append_assoc]
  rw [htext, pathTo_append]
  change pathTo before name ++ "[" ++ toString i ++ "]" = _
  rw [String.append_assoc, String.append_assoc, String.append_assoc]

theorem text_item_ne_empty (name : String) (i : Nat) : Segment.text ⟨name, some i⟩ ≠ "" := by
  intro hempty
  have hbracket := congrArg String.length hempty
  simp [Segment.text] at hbracket

/-- The lines of the fields of a record at a path. -/
theorem linesOf_of_forall {before : List Segment} {s : Segment} (hs : s.text ≠ "")
    {fields : Violations}
    (h : ∀ f ∈ fields, ∀ before, linesAt (pathTo before f.1) f.2 =
      (leavesAt f.1 f.2).map fun l => (l.under before).line) :
    linesOf (pathTo before s.text) fields =
      ((leavesOf fields).map (Leaf.below s)).map fun l => (l.under before).line := by
  rw [linesOf_eq, leavesOf_eq, List.map_map, List.map_flatMap]
  refine List.flatMap_congr ?_
  intro f hf
  rw [join_pathTo before hs, h f hf]
  refine List.map_congr_left ?_
  intro l _
  rw [Function.comp_apply, Leaf.under_below]

/-- **The lines of a field** are those of its leaves. -/
theorem linesAt_eq {v : Violation} (h : v.Proper) {name : String} (hname : name ≠ "")
    (before : List Segment) :
    linesAt (pathTo before name) v = (leavesAt name v).map fun l => (l.under before).line := by
  -- on the way down the path grows by the names that the leaves are put below
  induction h generalizing name before with
  | messages texts =>
      rw [linesAt, leavesAt, List.map_singleton, Leaf.line, Leaf.path, Leaf.under, List.append_nil]
      rfl
  | @record fields named _ ih =>
      rw [linesAt, leavesAt]
      refine linesOf_of_forall (s := ⟨name, none⟩) hname ?_
      intro f hf before
      exact ih f hf (named.1 f hf) before
  | @list items _ named _ ih =>
      rw [linesAt, leavesAt, linesOfItems_eq, leavesOfItems_eq, List.map_flatMap]
      refine List.flatMap_congr ?_
      intro item hitem
      rw [pathTo_item]
      refine linesOf_of_forall (text_item_ne_empty name item.1) ?_
      intro f hf before
      exact ih item hitem f hf ((named item hitem).1 f hf) before

/-- The lines of a report are those of its leaves. -/
theorem linesOf_top {vs : Violations} (h : vs.Proper) :
    linesOf "" vs = (leavesOf vs).map Leaf.line := by
  cases h with
  | record named below =>
      rw [linesOf_eq, leavesOf_eq, List.map_flatMap]
      refine List.flatMap_congr ?_
      intro f hf
      have hlines := linesAt_eq (below f hf) (named.1 f hf) []
      rwa [pathTo_nil] at hlines

/-! ### Leaves, each once -/

theorem mem_leavesOf {vs : Violations} {l : Leaf} :
    l ∈ leavesOf vs ↔ ∃ f ∈ vs, l ∈ leavesAt f.1 f.2 := by
  rw [leavesOf_eq, List.mem_flatMap]

/-- What is listed for a field is a leaf of every report that the field is in. -/
theorem hasLeaf_of_mem_leavesAt {v : Violation} (h : v.Proper) {name : String} {l : Leaf}
    (hl : l ∈ leavesAt name v) {vs : Violations} (hvs : (name, v) ∈ vs) : HasLeaf vs l := by
  induction h generalizing name l vs with
  | messages texts =>
      rw [leavesAt, List.mem_singleton] at hl
      rw [hl]
      exact .messages hvs
  | record _ _ ih =>
      rw [leavesAt] at hl
      obtain ⟨l', hl', rfl⟩ := List.mem_map.1 hl
      obtain ⟨f, hf, hleaf⟩ := mem_leavesOf.1 hl'
      exact .record hvs (ih f hf hleaf hf)
  | list _ _ _ ih =>
      rw [leavesAt, leavesOfItems_eq, List.mem_flatMap] at hl
      obtain ⟨item, hitem, hl⟩ := hl
      obtain ⟨l', hl', rfl⟩ := List.mem_map.1 hl
      obtain ⟨f, hf, hleaf⟩ := mem_leavesOf.1 hl'
      exact .item hvs hitem (ih item hitem f hf hleaf hf)

/-- **The leaves of a report** are listed, and nothing else is. -/
theorem mem_leavesOf_iff {vs : Violations} (h : vs.Proper) {l : Leaf} :
    l ∈ leavesOf vs ↔ HasLeaf vs l := by
  constructor
  · intro hl
    obtain ⟨f, hf, hl⟩ := mem_leavesOf.1 hl
    cases h with
    | record _ below => exact hasLeaf_of_mem_leavesAt (below f hf) hl hf
  · intro hl
    clear h
    induction hl with
    | messages h =>
        refine mem_leavesOf.2 ⟨_, h, ?_⟩
        rw [leavesAt]
        exact List.mem_singleton_self _
    | record h _ ih =>
        refine mem_leavesOf.2 ⟨_, h, ?_⟩
        rw [leavesAt]
        exact List.mem_map_of_mem ih
    | item h hi _ ih =>
        refine mem_leavesOf.2 ⟨_, h, ?_⟩
        rw [leavesAt, leavesOfItems_eq, List.mem_flatMap]
        exact ⟨_, hi, List.mem_map_of_mem ih⟩

theorem root_of_mem_leavesAt {name : String} {v : Violation} {l : Leaf}
    (h : l ∈ leavesAt name v) : l.root = name := by
  cases v with
  | messages texts =>
      rw [leavesAt, List.mem_singleton] at h
      rw [h]
      rfl
  | record fields =>
      rw [leavesAt] at h
      obtain ⟨l, -, rfl⟩ := List.mem_map.1 h
      rfl
  | list items =>
      rw [leavesAt, leavesOfItems_eq, List.mem_flatMap] at h
      obtain ⟨item, -, h⟩ := h
      obtain ⟨l, -, rfl⟩ := List.mem_map.1 h
      rfl

/-- Fields with names of their own have no leaf in common. -/
theorem nodup_leavesOf_of_forall {fields : Violations} (named : fields.Named)
    (h : ∀ f ∈ fields, (leavesAt f.1 f.2).Nodup) : (leavesOf fields).Nodup := by
  rw [leavesOf_eq, List.nodup_flatMap]
  refine ⟨h, (List.pairwise_map.1 named.2).imp ?_⟩
  intro f f' hne l hl hl'
  exact hne ((root_of_mem_leavesAt hl).symm.trans (root_of_mem_leavesAt hl'))

theorem nodup_map_below {ls : List Leaf} (h : ls.Nodup) (s : Segment) :
    (ls.map (Leaf.below s)).Nodup := by
  refine h.map ?_
  intro l l' heq
  exact (Leaf.below_inj heq).2

theorem nodup_leavesAt {v : Violation} (h : v.Proper) (name : String) :
    (leavesAt name v).Nodup := by
  induction h generalizing name with
  | messages texts =>
      rw [leavesAt]
      exact List.nodup_singleton _
  | record named _ ih =>
      rw [leavesAt]
      refine nodup_map_below (nodup_leavesOf_of_forall named ?_) _
      intro f hf
      exact ih f hf f.1
  | list indexed named _ ih =>
      rw [leavesAt, leavesOfItems_eq, List.nodup_flatMap]
      refine ⟨?_, (List.pairwise_map.1 indexed).imp ?_⟩
      · intro item hitem
        refine nodup_map_below (nodup_leavesOf_of_forall (named item hitem) ?_) _
        intro f hf
        exact ih item hitem f hf f.1
      · -- leaves of different items differ in the index at the top
        intro item item' hne l hl hl'
        obtain ⟨l₁, -, rfl⟩ := List.mem_map.1 hl
        obtain ⟨l₂, -, heq⟩ := List.mem_map.1 hl'
        obtain ⟨hs, -⟩ := Leaf.below_inj heq
        exact hne (Option.some.inj (congrArg Segment.index? hs)).symm

/-- **Every leaf is listed once.** -/
theorem nodup_leavesOf {vs : Violations} (h : vs.Proper) : (leavesOf vs).Nodup := by
  cases h with
  | record named below =>
      refine nodup_leavesOf_of_forall named ?_
      intro f hf
      exact nodup_leavesAt (below f hf) f.1

/-! ### The flattened report -/

/-- The flattened report is that of the leaves. -/
structure Flattened (vs : Violations) : Prop where
  /-- The leaves can be listed, each once, and then the lines of the report are those of the leaves in
  some order. -/
  lines : ∃ leaves : List Leaf, leaves.Nodup ∧ (∀ l, l ∈ leaves ↔ HasLeaf vs l) ∧
    vs.lines.Perm (leaves.map Leaf.line)
  /-- The failure is one of the settings. -/
  config : vs.toError = .config (.invalid vs.lines)
  /-- It tells the lines and nothing else. -/
  message : vs.toError.message =
    "Configuration error: " ++ ("Validation failed: " ++ "; ".intercalate vs.lines)

/-- **No violation is lost**, and none is made up. -/
theorem flattened_of_proper {vs : Violations} (h : vs.Proper) : Flattened vs where
  lines := by
    refine ⟨leavesOf vs, nodup_leavesOf h, fun l => mem_leavesOf_iff h, ?_⟩
    rw [Violations.lines, linesOf_top h]
    exact List.mergeSort_perm _ _
  config := rfl
  message := rfl

/-- Two leaves have the same line, which is told twice; fields of items and a field without messages
are told too. -/
theorem flattened_of_proper_sameLine :
    let vs : Violations :=
      [("a", .record [("b", .messages [none, some "x"])]),
        ("a.b", .messages [some "Invalid value", some "x"]),
        ("c", .list [(2, [("d", .messages [])]), (0, [("d", .record [("e", .messages [none])])])])]
    vs.Proper ∧ Flattened vs ∧ HasLeaf vs ⟨[⟨"c", some 0⟩, ⟨"d", none⟩], "e", [none]⟩ ∧
      vs.lines.Perm ["a.b: Invalid value, x", "a.b: Invalid value, x", "c[2].d: ",
        "c[0].d.e: Invalid value"] := by
  intro vs
  have hproper : vs.Proper := by
    refine .record (by simp [vs, Named]) ?_
    simp only [vs, List.forall_mem_cons, List.not_mem_nil, false_imp_iff, implies_true, and_true]
    refine ⟨.record (by simp [Named]) ?_, .messages _, .list (by simp) (by simp [Named]) ?_⟩
    · simp [Violation.Proper.messages]
    · simp only [List.forall_mem_cons, List.not_mem_nil, false_imp_iff, implies_true, and_true]
      refine ⟨.messages _, .record (by simp [Named]) ?_⟩
      simp [Violation.Proper.messages]
  have hleaf : HasLeaf vs ⟨[⟨"c", some 0⟩, ⟨"d", none⟩], "e", [none]⟩ :=
    (mem_leavesOf_iff hproper).1 (by decide)
  exact ⟨hproper, flattened_of_proper hproper, hleaf, List.mergeSort_perm (linesOf "" vs) _⟩

/-! ### Reports on settings -/

/-- Some fields that are among those with given names have names of their own. -/
theorem named_of_sublist {fields : Violations} (names : List String)
    (h : (fields.map Prod.fst).Sublist names) (hnames : names.Nodup) (hempty : "" ∉ names) :
    fields.Named := by
  refine ⟨?_, h.nodup hnames⟩
  intro f hf hname
  have hmem : f.1 ∈ names := h.subset (List.mem_map_of_mem hf)
  rw [hname] at hmem
  exact hempty hmem

end Violations

open Violations

theorem names_require (holds : Bool) (name message : String) :
    ((require holds name message).map Prod.fst).Sublist [name] := by
  cases holds
  · exact .refl _
  · exact List.nil_sublist _

theorem names_requireSection (name : String) (vs : Violations) :
    ((requireSection name vs).map Prod.fst).Sublist [name] := by
  unfold requireSection
  split
  · exact List.nil_sublist _
  · exact .refl _

theorem proper_of_mem_require {holds : Bool} {name message : String} {f : String × Violation}
    (h : f ∈ require holds name message) : f.2.Proper := by
  cases holds
  · rw [List.mem_singleton.1 h]
    exact .messages _
  · exact nomatch h

theorem proper_of_mem_requireSection {name : String} {vs : Violations} (hvs : vs.Proper)
    {f : String × Violation} (h : f ∈ requireSection name vs) : f.2.Proper := by
  unfold requireSection at h
  split at h
  · exact nomatch h
  · rw [List.mem_singleton.1 h]
    exact hvs

theorem CacheSettings.proper_violations (s : CacheSettings) : s.violations.Proper := by
  refine .record (named_of_sublist
    (["maximum_size"] ++ ["expire_after_write_seconds"] ++ ["expire_after_access_seconds"])
    ?_ (by decide) (by decide)) ?_
  · rw [CacheSettings.violations, List.map_append, List.map_append]
    exact ((names_require ..).append (names_require ..)).append (names_require ..)
  · intro f hf
    rcases List.mem_append.1 hf with hf | hf
    · rcases List.mem_append.1 hf with hf | hf
      · exact proper_of_mem_require hf
      · exact proper_of_mem_require hf
    · exact proper_of_mem_require hf

theorem LogSettings.proper_violations (s : LogSettings) : s.violations.Proper :=
  .record (named_of_sublist _ (names_require ..) (by decide) (by decide))
    fun _ hf => proper_of_mem_require hf

/-- **The report on any settings** is a proper one. -/
theorem Settings.proper_violations (s : Settings) : s.violations.Proper := by
  refine .record (named_of_sublist (["cache"] ++ ["user_secrets"] ++ ["logging"])
    ?_ (by decide) (by decide)) ?_
  · rw [Settings.violations, List.map_append, List.map_append]
    exact ((names_requireSection ..).append (names_requireSection ..)).append
      (names_requireSection ..)
  · intro f hf
    rcases List.mem_append.1 hf with hf | hf
    · rcases List.mem_append.1 hf with hf | hf
      · exact proper_of_mem_requireSection s.cache.proper_violations hf
      · exact proper_of_mem_requireSection s.userSecrets.proper_violations hf
    · exact proper_of_mem_requireSection s.logging.proper_violations hf

end SecretResolver
