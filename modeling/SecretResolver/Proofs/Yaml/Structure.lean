/-
**From tokens to the node of a written stream.**

The tokens of a mapping of texts are worked off entry by entry, each of which gives two scalars, and
from the scalars the entries of the mapping are collected.  A text is marked as one wherever its
plain form would be read as something else, so all scalars are texts again.

Main definitions:

* `entryEvents`, `entryItems` — what the entries of a mapping of texts give;
* `textNode`, `textEntries` — texts as nodes;
* `Apart` — entries whose keys are other names.

Main results:

* `scalarValue?_styleOf` — **a text in its style is that text**;
* `workOff_entries`, `entriesBy_items` — entry by entry;
* `ofEvents_writeMapping`, `ofEvents_writeDocument` — **the node of what is written**.
-/

import SecretResolver.Proofs.Yaml.Entries
import SecretResolver.Yaml.Node

set_option relaxedAutoImplicit false
set_option autoImplicit false

namespace SecretResolver

namespace Yaml

variable {handles : Handles} {goals : List Goal} {m : Mark} {rest : List Token}

/-! ### Events -/

/-- The event of a text. -/
def textEvent (s : String) : Event := .scalar none none s.toList (styleOf s)

/-- The events of some entries. -/
def entryEvents (es : List (String × String)) : List Event :=
  es.flatMap fun e => [textEvent e.1, textEvent e.2]

theorem workOff_found {fuel : Nat} {g : Goal} {ts : List Token} {e : PlacedEvent}
    {goals' : List Goal} {rest : List Token} (h : g.step handles goals ts = .ok ⟨some e, goals', rest⟩) :
    workOff handles (fuel + 1) (g :: goals) ts =
      ⟨e :: (workOff handles fuel goals' rest).events, (workOff handles fuel goals' rest).outcome⟩ := by
  simp [workOff, h]

theorem workOff_turn {fuel : Nat} {g : Goal} {ts : List Token} {goals' : List Goal}
    {rest : List Token} (h : g.step handles goals ts = .ok ⟨none, goals', rest⟩) :
    workOff handles (fuel + 1) (g :: goals) ts = workOff handles fuel goals' rest := by
  simp [workOff, h]

/-- A scalar is a node. -/
theorem step_scalar {t : Token} {text : List Char} {style : ScalarStyle}
    (ht : t.kind = .scalar text style) (block indentless : Bool) (rest : List Token) :
    (Goal.node block indentless).step handles goals (t :: rest) =
      .ok ⟨some (.scalar none none text style, t.start), goals, rest⟩ := by
  obtain ⟨kind, start, stop⟩ := t
  subst ht
  rfl

/-- What a row of events becomes when some events come before it. -/
def EventRow.after (evs : List PlacedEvent) (row : EventRow) : EventRow :=
  ⟨evs ++ row.events, row.outcome⟩

/-- An entry gives its key and its value. -/
theorem workOff_entry {e : String × String} {ts : List Token} (h : EntryTokens e ts)
    (handles : Handles) (goals : List Goal) (fuel : Nat) (rest : List Token) :
    ∃ evs : List PlacedEvent, evs.map Prod.fst = [textEvent e.1, textEvent e.2] ∧
      workOff handles (fuel + 4) (.blockKey :: goals) (ts ++ rest) =
        (workOff handles fuel (.blockKey :: goals) rest).after evs := by
  obtain ⟨k, t, w, u, rfl, hk, ht, hw, hu⟩ := h
  have hkey : Goal.blockKey.step handles goals (k :: t :: w :: u :: rest) =
      .ok ⟨none, .node true true :: .blockValue :: goals, t :: w :: u :: rest⟩ := by
    simp [Goal.step, hk, nodeOrEmpty, endsBlockPart, ht, Step.turn]
  have hvalue : Goal.blockValue.step handles goals (w :: u :: rest) =
      .ok ⟨none, .node true true :: .blockKey :: goals, u :: rest⟩ := by
    simp [Goal.step, hw, nodeOrEmpty, endsBlockPart, hu, Step.turn]
  refine ⟨[(textEvent e.1, t.start), (textEvent e.2, u.start)], rfl, ?_⟩
  simp only [List.cons_append, List.nil_append]
  rw [workOff_turn hkey, workOff_found (step_scalar ht true true _), workOff_turn hvalue,
    workOff_found (step_scalar hu true true _)]
  rfl

/-- **The entries of a mapping** are worked off one after another. -/
theorem workOff_entries {es : List (String × String)} {ts : List Token} (h : MappingTokens es ts)
    (handles : Handles) (goals : List Goal) (fuel : Nat) (rest : List Token) :
    ∃ evs : List PlacedEvent, evs.map Prod.fst = entryEvents es ∧
      workOff handles (fuel + 4 * es.length) (.blockKey :: goals) (ts ++ rest) =
        (workOff handles fuel (.blockKey :: goals) rest).after evs := by
  induction h with
  | nil => exact ⟨[], rfl, rfl⟩
  | @cons e es ts us h hs ih =>
      obtain ⟨evs, hevs, hwork⟩ := ih
      obtain ⟨evs', hevs', hentry⟩ :=
        workOff_entry h handles goals (fuel + 4 * es.length) (us ++ rest)
      refine ⟨evs' ++ evs, ?_, ?_⟩
      · rw [List.map_append, hevs', hevs]
        rfl
      · have hfuel : fuel + 4 * (e :: es).length = fuel + 4 * es.length + 4 := by
          rw [List.length_cons]
          omega
        rw [hfuel, List.append_assoc, hentry, hwork]
        simp only [EventRow.after, List.append_assoc]

/-- After the last entry the mapping ends, and after that the stream. -/
theorem workOff_end (handles : Handles) (fuel : Nat) (m : Mark) :
    workOff handles (fuel + 2) [.blockKey] (closingTokens m) =
      ⟨[(.mappingEnd, m)], .ok [⟨.streamEnd, m, m⟩]⟩ := rfl

/-- The events of a stream of one mapping of texts. -/
theorem events_writeMapping {es : List (String × String)} (hes : es ≠ []) :
    ∃ evs : List PlacedEvent,
      evs.map Prod.fst = .mappingStart none none :: (entryEvents es ++ [.mappingEnd]) ∧
        events (writeMapping es) = ⟨evs, true, none, false⟩ := by
  obtain ⟨⟨kind, start, stop⟩, ts, m, rfl, hts, htokens⟩ := tokens_writeMapping hes
  obtain ⟨hlength, -⟩ := hts.kind
  obtain ⟨fuel, hfuel⟩ : ∃ fuel, 8 * ((ts ++ closingTokens m).length + 2) =
      fuel + 2 + 4 * es.length + 1 := by
    have hclosing : (closingTokens m).length = 2 := rfl
    rw [List.length_append, hlength, hclosing]
    exact ⟨8 * (4 * es.length + 2 + 2) - (2 + 4 * es.length + 1), by omega⟩
  obtain ⟨evs, hevs, hentries⟩ :=
    workOff_entries hts defaultHandles [] (fuel + 2) (closingTokens m)
  have hstart : (Goal.node true false).step defaultHandles []
      (⟨.blockMappingStart, start, stop⟩ :: (ts ++ closingTokens m)) =
        .ok ⟨some (.mappingStart none none, start), [.blockKey], ts ++ closingTokens m⟩ := rfl
  have hfirst : firstRow (⟨.blockMappingStart, start, stop⟩ :: (ts ++ closingTokens m)) =
      some (workOff defaultHandles (8 * ((ts ++ closingTokens m).length + 2)) [.node true false]
        (⟨.blockMappingStart, start, stop⟩ :: (ts ++ closingTokens m))) := rfl
  rw [hfuel, workOff_found hstart, hentries, workOff_end] at hfirst
  refine ⟨(.mappingStart none none, start) :: (evs ++ [(.mappingEnd, m)]), ?_, ?_⟩
  · simp [hevs]
  · simp only [events, htokens, hfirst]
    rfl

/-- The events of a stream of one text. -/
theorem events_writeDocument (s : String) :
    ∃ m, events (writeDocument s) = ⟨[(textEvent s, m)], true, none, false⟩ := by
  obtain ⟨⟨kind, start, stop⟩, m, rfl, htokens⟩ := tokens_writeDocument s
  refine ⟨start, ?_⟩
  simp only [events, htokens]
  rfl

/-! ### Items -/

/-- The item of a text. -/
def textItem (s : String) : Item := .scalar none s.toList (styleOf s)

/-- The items of some entries. -/
def entryItems (es : List (String × String)) : List Item :=
  es.flatMap fun e => [textItem e.1, textItem e.2]

/-- Where nothing has an anchor, nothing is resolved. -/
theorem linkFrom_items (fault : Fault) (index : Nat) {evs : List PlacedEvent} {items : List Item}
    (h : (evs.map Prod.fst).map (fun e => (e.anchor?, Item.ofEvent .none e)) =
      items.map fun i => (none, some i)) :
    (linkFrom fault .none index evs).items.map Prod.fst = items := by
  induction evs generalizing index items with
  | nil =>
      cases items with
      | nil => rfl
      | cons i items => exact nomatch h
  | cons e evs ih =>
      obtain ⟨e, m⟩ := e
      cases items with
      | nil => exact nomatch h
      | cons i items =>
          obtain ⟨hfirst, hrest⟩ := List.cons.inj h
          obtain ⟨hanchor, hitem⟩ := Prod.mk.inj hfirst
          have hadd : Anchors.none.add e.anchor? index = .none := by
            rw [hanchor]
            rfl
          simp only [linkFrom, hitem, hadd, List.map_cons, ih (index + 1) hrest]

/-- The items of some entries. -/
theorem items_entryEvents (es : List (String × String)) :
    (entryEvents es).map (fun e => (e.anchor?, Item.ofEvent .none e)) =
      (entryItems es).map fun i => (none, some i) := by
  induction es with
  | nil => rfl
  | cons e es ih =>
      rw [entryEvents, List.flatMap_cons, List.map_append, entryItems, List.flatMap_cons,
        List.map_append]
      exact congrArg₂ (· ++ ·) rfl ih

/-! ### Nodes -/

/-- **A text in its style is that text.** -/
theorem scalarValue?_styleOf (s : String) :
    scalarValue? none s.toList (styleOf s) = some (.text s) := by
  have hstyle : scalarValue? none s.toList (styleOf s) =
      if styleOf s = .plain then scalarOf? (String.ofList s.toList)
      else some (.text (String.ofList s.toList)) := rfl
  rw [hstyle, String.ofList_toList]
  by_cases h : formOf s = .plain
  · rw [if_pos (by rw [styleOf, if_pos h]), (formOf_plain h).1]
  · rw [if_neg (by rw [styleOf, if_neg h]; exact ScalarStyle.noConfusion)]

/-- A text as a node. -/
def textNode (s : String) : Node := .scalar (.text s)

/-- Some texts with names as the entries of a mapping. -/
def textEntries (es : List (String × String)) : List (Node × Node) :=
  es.map fun e => (textNode e.1, textNode e.2)

theorem same_textNode (s t : String) : (textNode s).same (textNode t) = (s == t) := by
  have hsame : (textNode s).same (textNode t) = (Scalar.text s == Scalar.text t) := by
    simp [textNode, Node.same, Scalar.same]
  rw [hsame, Bool.eq_iff_iff, beq_iff_eq, beq_iff_eq, Scalar.text.injEq]

theorem walkNode_textItem (d : Linked) (inner : Option (Walk Node)) (jumps : Nat) (s : String)
    (m : Mark) (rest : List PlacedItem) :
    walkNode scalarValue? d inner jumps ((textItem s, m) :: rest) =
      .ok (textNode s, jumps, rest) := by
  simp only [walkNode, textItem, content, scalarValue?_styleOf]
  rfl

/-- Entries whose keys are names that are not among those still to come. -/
def Apart (names : List String) (before : List (Node × Node)) : Prop :=
  ∀ e ∈ before, ∃ name ∉ names, e.1 = textNode name

theorem Apart.fresh {name : String} {names : List String} {before : List (Node × Node)}
    (h : Apart (name :: names) before) :
    (before.any fun e => e.1.same (textNode name)) = false := by
  rw [List.any_eq_false]
  intro b hb
  obtain ⟨name', hname', hb⟩ := h b hb
  rw [hb, same_textNode, beq_iff_eq]
  rintro rfl
  exact hname' (by simp)

theorem Apart.cons {name : String} {names : List String} {before : List (Node × Node)}
    (h : Apart (name :: names) before) (hname : name ∉ names) (v : Node) :
    Apart names ((textNode name, v) :: before) := by
  intro b hb
  rcases List.mem_cons.1 hb with rfl | hb
  · exact ⟨name, hname, rfl⟩
  · obtain ⟨name', hname', hb⟩ := h b hb
    exact ⟨name', fun hmem => hname' (List.mem_cons_of_mem _ hmem), hb⟩

/-- One entry of a mapping. -/
theorem entriesBy_cons {d : Linked} {m place : Mark} {node : Walk Node}
    {before es : List (Node × Node)} {jumps fuel : Nat} {item : Item} {k v : Node}
    {items items' items'' rest : List PlacedItem} (hitem : item ≠ .closeMapping)
    (hk : node jumps ((item, place) :: items) = .ok (k, jumps, items'))
    (hfresh : (before.any fun e => e.1.same k) = false)
    (hv : node jumps items' = .ok (v, jumps, items''))
    (h : entriesBy d m node fuel ((k, v) :: before) jumps items'' = .ok (es, jumps, rest)) :
    entriesBy d m node (fuel + 1) before jumps ((item, place) :: items) =
      .ok ((k, v) :: es, jumps, rest) := by
  rw [entriesBy]
  · simp only [hk, hfresh, hv, h, Bool.false_eq_true, if_false]
  · exact fun h => nomatch h
  · intro place' rest' h
    exact hitem (Prod.mk.inj (List.cons.inj h).1).1

/-- **The entries of a mapping** are collected one after another, as no name comes twice. -/
theorem entriesBy_items (d : Linked) (m : Mark) (inner : Option (Walk Node)) {node : Walk Node}
    (hnode : node = walkNode scalarValue? d inner) {es : List (String × String)}
    {items : List PlacedItem} (hitems : items.map Prod.fst = entryItems es ++ [.closeMapping])
    (hnames : (es.map Prod.fst).Nodup) {before : List (Node × Node)}
    (hbefore : Apart (es.map Prod.fst) before) (jumps : Nat) {fuel : Nat}
    (hfuel : es.length < fuel) :
    entriesBy d m node fuel before jumps items = .ok (textEntries es, jumps, []) := by
  obtain ⟨fuel, rfl⟩ : ∃ n, fuel = n + 1 := ⟨fuel - 1, by omega⟩
  induction es generalizing items before fuel with
  | nil =>
      obtain ⟨⟨item, place⟩, rest, rfl, hitem, hrest⟩ := List.map_eq_cons_iff.1 hitems
      obtain rfl : item = .closeMapping := hitem
      obtain rfl := List.map_eq_nil_iff.1 hrest
      rfl
  | cons e es ih =>
      rw [List.length_cons] at hfuel
      obtain ⟨fuel, rfl⟩ : ∃ n, fuel = n + 1 := ⟨fuel - 1, by omega⟩
      have hentry : entryItems (e :: es) ++ [.closeMapping] =
          textItem e.1 :: textItem e.2 :: (entryItems es ++ [.closeMapping]) := rfl
      rw [hentry] at hitems
      obtain ⟨⟨item, k⟩, tail, rfl, hk, htail⟩ := List.map_eq_cons_iff.1 hitems
      obtain rfl : item = textItem e.1 := hk
      obtain ⟨⟨item, v⟩, rest, rfl, hv, hrest⟩ := List.map_eq_cons_iff.1 htail
      obtain rfl : item = textItem e.2 := hv
      rw [List.map_cons, List.nodup_cons] at hnames
      have hrec := ih hrest hnames.2 (hbefore.cons hnames.1 (textNode e.2)) fuel (by omega)
      subst hnode
      exact entriesBy_cons (fun h => nomatch h) (walkNode_textItem d inner jumps e.1 k _)
        hbefore.fresh (walkNode_textItem d inner jumps e.2 v rest) hrec

theorem length_entryItems (es : List (String × String)) :
    (entryItems es).length = 2 * es.length := by
  induction es with
  | nil => rfl
  | cons e es ih =>
      rw [entryItems, List.flatMap_cons, List.length_append, ← entryItems, ih, List.length_cons]
      simp only [List.length_cons, List.length_nil]
      omega

/-- The node that is a mapping of texts. -/
theorem nodeAt_items (d : Linked) {m : Mark} {es : List (String × String)}
    {items : List PlacedItem} (hitems : items.map Prod.fst = entryItems es ++ [.closeMapping])
    (hnames : (es.map Prod.fst).Nodup) :
    nodeAt scalarValue? d maxDepth 0 ((.openMapping none, m) :: items) =
      .ok (.mapping (textEntries es), 0, []) := by
  have hlength : es.length < items.length + 1 := by
    have hitems' := congrArg List.length hitems
    rw [List.length_map, List.length_append, length_entryItems] at hitems'
    omega
  have hinner : nodeAt scalarValue? d 127 =
      walkNode scalarValue? d (some (nodeAt scalarValue? d 126)) := rfl
  have hentries : entriesBy d m (nodeAt scalarValue? d 127) (items.length + 1) [] 0 items =
      .ok (textEntries es, 0, []) :=
    entriesBy_items d m _ hinner hitems hnames (by simp [Apart]) 0 hlength
  have hnode : nodeAt scalarValue? d maxDepth 0 ((.openMapping none, m) :: items) =
      content scalarValue? d (some (nodeAt scalarValue? d 127)) (.openMapping none) m 0 items := rfl
  rw [hnode]
  simp only [content, hentries]
  rfl

/-- **The node of a mapping of texts.** -/
theorem ofEvents_writeMapping {es : List (String × String)} (hes : es ≠ [])
    (hnames : (es.map Prod.fst).Nodup) :
    Node.ofEvents scalarValue? (events (writeMapping es)) = .ok (.mapping (textEntries es)) := by
  obtain ⟨evs, hevs, hevents⟩ := events_writeMapping hes
  have hlinked : (Linked.ofEvents ⟨evs, true, none, false⟩).items.map Prod.fst =
      .openMapping none :: (entryItems es ++ [.closeMapping]) := by
    refine linkFrom_items _ 0 ?_
    rw [hevs]
    simp only [List.map_cons, List.map_append, items_entryEvents]
    rfl
  obtain ⟨⟨item, m⟩, items, hcons, hitem, hitems⟩ := List.map_eq_cons_iff.1 hlinked
  obtain rfl : item = .openMapping none := hitem
  have hnode := nodeAt_items (Linked.ofEvents ⟨evs, true, none, false⟩) (m := m) hitems hnames
  rw [← hcons] at hnode
  rw [hevents]
  simp only [Node.ofEvents, hnode]
  rfl

/-- **The node of a text.** -/
theorem ofEvents_writeDocument (s : String) :
    Node.ofEvents scalarValue? (events (writeDocument s)) = .ok (textNode s) := by
  obtain ⟨m, hevents⟩ := events_writeDocument s
  have hitems : (Linked.ofEvents ⟨[(textEvent s, m)], true, none, false⟩).items =
      [(textItem s, m)] := rfl
  have hnode : nodeAt scalarValue? (Linked.ofEvents ⟨[(textEvent s, m)], true, none, false⟩)
      maxDepth 0 [(textItem s, m)] = .ok (textNode s, 0, []) :=
    walkNode_textItem _ (some _) 0 s m []
  rw [hevents]
  simp only [Node.ofEvents, hitems, hnode]
  rfl

end Yaml

end SecretResolver
