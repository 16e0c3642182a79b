/-
**Texts for JSON and for YAML: from tokens to items.**

The tokens of a value are worked off along its structure.  Nothing in them has an anchor or is an
alias, so every event is an item as it stands.

Main definitions:

* `row` — the items of a value;
* `Unanchored` — events that are items as they stand.

Main results:

* `workOff_value`, `workOff_items`, `workOff_members` — **the tokens of a value are worked off**;
* `events_whole` — the events of a complete text;
* `items_of_unanchored` — its items.
-/

import SecretResolver.Proofs.Interchange.Tokens
import SecretResolver.Proofs.Yaml.Structure

set_option relaxedAutoImplicit false
set_option autoImplicit false

namespace SecretResolver

namespace Yaml

open Json (Value)
open Interchange (Whole)

variable {handles : Handles} {goals : List Goal} {t e : Token} {ts rest : List Token}

/-! ### Items -/

/-- The item of a scalar. -/
def scalarItem (text : String) (style : ScalarStyle) : Item := .scalar none text.toList style

mutual

/-- The items of a value. -/
def row : Value → List Item
  | .null => [scalarItem "null" .plain]
  | .flag b => [scalarItem (Document.flagText b) .plain]
  | .number n => [scalarItem n.text .plain]
  | .text s => [scalarItem s .marked]
  | .array vs => .openSequence none :: sequenceRow vs
  | .object ms => .openMapping none :: mappingRow ms

/-- The items of the items of an array, and its end. -/
def sequenceRow : List Value → List Item
  | [] => [.closeSequence]
  | v :: vs => row v ++ sequenceRow vs

/-- The items of the members of an object, and its end. -/
def mappingRow : List (String × Value) → List Item
  | [] => [.closeMapping]
  | (name, v) :: ms => scalarItem name .marked :: (row v ++ mappingRow ms)

end

/-- Events that are items as they stand. -/
def Unanchored (evs : List PlacedEvent) (items : List Item) : Prop :=
  (evs.map Prod.fst).map (fun e => (e.anchor?, Item.ofEvent .none e)) =
    items.map fun i => (none, some i)

theorem Unanchored.append {evs evs' : List PlacedEvent} {items items' : List Item}
    (h : Unanchored evs items) (h' : Unanchored evs' items') :
    Unanchored (evs ++ evs') (items ++ items') := by
  rw [Unanchored, List.map_append, List.map_append, List.map_append, h, h']

/-! ### Goals -/

/-- Some tokens are worked off in some steps, and give some items. -/
def Worked (handles : Handles) (n : Nat) (goals : List Goal) (ts : List Token) (items : List Item)
    (goals' : List Goal) (rest : List Token) : Prop :=
  ∃ evs, Unanchored evs items ∧ ∀ fuel,
    workOff handles (fuel + n) goals ts = (workOff handles fuel goals' rest).after evs

theorem worked_turn {g : Goal} {goals' : List Goal}
    (h : g.step handles goals ts = .ok ⟨none, goals', rest⟩) :
    Worked handles 1 (g :: goals) ts [] goals' rest :=
  ⟨[], rfl, fun _ => workOff_turn h⟩

theorem worked_found {g : Goal} {goals' : List Goal} {e : PlacedEvent} {item : Item}
    (h : g.step handles goals ts = .ok ⟨some e, goals', rest⟩) (hitem : Unanchored [e] [item]) :
    Worked handles 1 (g :: goals) ts [item] goals' rest :=
  ⟨[e], hitem, fun _ => workOff_found h⟩

theorem Worked.trans {n n' : Nat} {goals' goals'' : List Goal} {ts' ts'' : List Token}
    {items items' : List Item} (h : Worked handles n goals ts items goals' ts')
    (h' : Worked handles n' goals' ts' items' goals'' ts'') :
    Worked handles (n + n') goals ts (items ++ items') goals'' ts'' := by
  obtain ⟨evs, hevs, hwork⟩ := h
  obtain ⟨evs', hevs', hwork'⟩ := h'
  refine ⟨evs ++ evs', hevs.append hevs', fun fuel => ?_⟩
  have hfuel : fuel + (n + n') = fuel + n' + n := by omega
  rw [hfuel, hwork, hwork']
  simp only [EventRow.after, List.append_assoc]

/-- The tokens with which values begin. -/
def beginsValue : TokenKind → Bool
  | .scalar _ _ => true
  | .flowSequenceStart => true
  | .flowMappingStart => true
  | _ => false

theorem kinds_begin (v : Value) : ∃ k ks, kinds v = k :: ks ∧ beginsValue k = true := by
  cases v <;> exact ⟨_, _, rfl, rfl⟩

/-- Tokens of values, split where the kinds are. -/
theorem exists_begin {v : Value} (h : ts.map Token.kind = kinds v) :
    ∃ t us, ts = t :: us ∧ beginsValue t.kind = true := by
  obtain ⟨k, ks, hkinds, hbegins⟩ := kinds_begin v
  rw [hkinds] at h
  obtain ⟨t, us, rfl, rfl, -⟩ := List.map_eq_cons_iff.1 h
  exact ⟨t, us, rfl, hbegins⟩

/-- A scalar is worked off at once. -/
theorem worked_scalar {text : String} {style : ScalarStyle}
    (h : ts.map Token.kind = [.scalar text.toList style]) (handles : Handles)
    (block indentless : Bool) (goals : List Goal) (rest : List Token) :
    Worked handles 1 (.node block indentless :: goals) (ts ++ rest) [scalarItem text style] goals
      rest := by
  obtain ⟨t, us, rfl, ht, hus⟩ := List.map_eq_cons_iff.1 h
  obtain rfl := List.map_eq_nil_iff.1 hus
  exact worked_found (step_scalar ht block indentless rest) rfl

/-- The start of a collection. -/
theorem worked_start {first : TokenKind} {item : Item} {g : Goal}
    (ht : t.kind = first) (hfirst : first = .flowSequenceStart ∧ item = .openSequence none ∧
      g = .flowEntry true ∨ first = .flowMappingStart ∧ item = .openMapping none ∧
      g = .flowKey true) (handles : Handles) (block indentless : Bool) (goals : List Goal)
    (rest : List Token) :
    Worked handles 1 (.node block indentless :: goals) (t :: rest) [item] (g :: goals) rest := by
  obtain ⟨kind, start, stop⟩ := t
  rcases hfirst with ⟨rfl, rfl, rfl⟩ | ⟨rfl, rfl, rfl⟩
  · obtain rfl : kind = .flowSequenceStart := ht
    exact worked_found (e := (.sequenceStart none none, start)) rfl rfl
  · obtain rfl : kind = .flowMappingStart := ht
    exact worked_found (e := (.mappingStart none none, start)) rfl rfl

/-- Before an item stands a comma, unless it is the first one. -/
theorem worked_entry {first : Bool} {lead : List Token}
    (hlead : lead.map Token.kind = leadKinds first) (ht : beginsValue t.kind = true)
    (handles : Handles) (goals : List Goal) (rest : List Token) :
    Worked handles 1 (.flowEntry first :: goals) (lead ++ t :: rest) []
      (.node false false :: .flowEntry false :: goals) (t :: rest) := by
  refine worked_turn ?_
  obtain ⟨kind, start, stop⟩ := t
  cases first with
  | true =>
      obtain rfl := List.map_eq_nil_iff.1 hlead
      cases kind with
      | scalar => rfl
      | flowSequenceStart => rfl
      | flowMappingStart => rfl
      | _ => exact nomatch ht
  | false =>
      obtain ⟨⟨kind', start', stop'⟩, lead', rfl, hkind, hlead'⟩ := List.map_eq_cons_iff.1 hlead
      obtain rfl := List.map_eq_nil_iff.1 hlead'
      obtain rfl : kind' = .flowEntry := hkind
      cases kind with
      | scalar => rfl
      | flowSequenceStart => rfl
      | flowMappingStart => rfl
      | _ => exact nomatch ht

/-- So it is with a name. -/
theorem worked_key {first : Bool} {lead : List Token} {text : List Char} {style : ScalarStyle}
    (hlead : lead.map Token.kind = leadKinds first) (ht : t.kind = .key)
    (he : e.kind = .scalar text style) (handles : Handles) (goals : List Goal)
    (rest : List Token) :
    Worked handles 1 (.flowKey first :: goals) (lead ++ t :: e :: rest) []
      (.node false false :: .flowValue :: goals) (e :: rest) := by
  refine worked_turn ?_
  obtain ⟨kind, start, stop⟩ := t
  obtain ⟨kind', start', stop'⟩ := e
  obtain rfl : kind = .key := ht
  obtain rfl : kind' = .scalar text style := he
  cases first with
  | true =>
      obtain rfl := List.map_eq_nil_iff.1 hlead
      rfl
  | false =>
      obtain ⟨⟨kind, start, stop⟩, lead', rfl, hkind, hlead'⟩ := List.map_eq_cons_iff.1 hlead
      obtain rfl := List.map_eq_nil_iff.1 hlead'
      obtain rfl : kind = .flowEntry := hkind
      rfl

/-- After the colon comes the value. -/
theorem worked_colon (ht : t.kind = .value) (he : beginsValue e.kind = true) (handles : Handles)
    (goals : List Goal) (rest : List Token) :
    Worked handles 1 (.flowValue :: goals) (t :: e :: rest) []
      (.node false false :: .flowKey false :: goals) (e :: rest) := by
  refine worked_turn ?_
  obtain ⟨kind, start, stop⟩ := t
  obtain ⟨kind', start', stop'⟩ := e
  obtain rfl : kind = .value := ht
  cases kind' with
  | scalar => rfl
  | flowSequenceStart => rfl
  | flowMappingStart => rfl
  | _ => exact nomatch he

mutual

/-- **The tokens of a value are worked off.** -/
theorem workOff_value (handles : Handles) : ∀ (v : Value) {ts : List Token},
    ts.map Token.kind = kinds v → ∀ (block indentless : Bool) (goals : List Goal)
      (rest : List Token), ∃ n, n + 1 ≤ 2 * (kinds v).length ∧
        Worked handles n (.node block indentless :: goals) (ts ++ rest) (row v) goals rest
  | .null, _, h, block, indentless, goals, rest =>
      ⟨1, Nat.le_refl 2, worked_scalar h handles block indentless goals rest⟩
  | .flag _, _, h, block, indentless, goals, rest =>
      ⟨1, Nat.le_refl 2, worked_scalar h handles block indentless goals rest⟩
  | .number _, _, h, block, indentless, goals, rest =>
      ⟨1, Nat.le_refl 2, worked_scalar h handles block indentless goals rest⟩
  | .text _, _, h, block, indentless, goals, rest =>
      ⟨1, Nat.le_refl 2, worked_scalar h handles block indentless goals rest⟩
  | .array vs, ts, h, block, indentless, goals, rest => by
      obtain ⟨t, us, rfl, ht, hus⟩ := List.map_eq_cons_iff.1 h
      obtain ⟨ts, last, rfl, hts, hlast⟩ := List.map_eq_append_iff.1 hus
      obtain ⟨e, us, rfl, he, hus⟩ := List.map_eq_cons_iff.1 hlast
      obtain rfl := List.map_eq_nil_iff.1 hus
      obtain ⟨n, hn, hitems⟩ := workOff_items handles vs hts he goals rest
      have hstart := worked_start ht (.inl ⟨rfl, rfl, rfl⟩) handles block indentless goals
        (ts ++ e :: rest)
      refine ⟨1 + n, ?_, ?_⟩
      · simp only [kinds, List.length_cons, List.length_append, List.length_nil]
        omega
      · rw [List.cons_append, List.append_assoc, row]
        exact hstart.trans hitems
  | .object ms, ts, h, block, indentless, goals, rest => by
      obtain ⟨t, us, rfl, ht, hus⟩ := List.map_eq_cons_iff.1 h
      obtain ⟨ts, last, rfl, hts, hlast⟩ := List.map_eq_append_iff.1 hus
      obtain ⟨e, us, rfl, he, hus⟩ := List.map_eq_cons_iff.1 hlast
      obtain rfl := List.map_eq_nil_iff.1 hus
      obtain ⟨n, hn, hmembers⟩ := workOff_members handles ms hts he goals rest
      have hstart := worked_start ht (.inr ⟨rfl, rfl, rfl⟩) handles block indentless goals
        (ts ++ e :: rest)
      refine ⟨1 + n, ?_, ?_⟩
      · simp only [kinds, List.length_cons, List.length_append, List.length_nil]
        omega
      · rw [List.cons_append, List.append_assoc, row]
        exact hstart.trans hmembers

/-- The items of an array are worked off, up to its end. -/
theorem workOff_items (handles : Handles) : ∀ (vs : List Value) {first : Bool} {ts : List Token}
    {e : Token}, ts.map Token.kind = itemKinds first vs → e.kind = .flowSequenceEnd →
      ∀ (goals : List Goal) (rest : List Token), ∃ n, n ≤ 2 * (itemKinds first vs).length + 1 ∧
        Worked handles n (.flowEntry first :: goals) (ts ++ e :: rest) (sequenceRow vs) goals rest
  | [], first, ts, ⟨kind, start, stop⟩, h, he, goals, rest => by
      obtain rfl := List.map_eq_nil_iff.1 h
      obtain rfl : kind = .flowSequenceEnd := he
      refine ⟨1, Nat.le_refl 1, worked_found (e := (.sequenceEnd, start)) ?_ rfl⟩
      cases first <;> rfl
  | v :: vs, first, ts, e, h, he, goals, rest => by
      obtain ⟨lead, us, rfl, hlead, hus⟩ := List.map_eq_append_iff.1 h
      obtain ⟨ts, us, rfl, hts, hus⟩ := List.map_eq_append_iff.1 hus
      obtain ⟨n, hn, hvalue⟩ := workOff_value handles v hts false false
        (.flowEntry false :: goals) (us ++ e :: rest)
      obtain ⟨k, hk, hitems⟩ := workOff_items handles vs hus he goals rest
      obtain ⟨t, ts, rfl, ht⟩ := exists_begin hts
      have hentry := worked_entry hlead ht handles goals (ts ++ (us ++ e :: rest))
      refine ⟨1 + (n + k), ?_, ?_⟩
      · simp only [itemKinds, List.length_append]
        omega
      · simp only [List.append_assoc, List.cons_append, sequenceRow] at hvalue ⊢
        exact hentry.trans (hvalue.trans hitems)

/-- The members of an object are worked off, up to its end. -/
theorem workOff_members (handles : Handles) : ∀ (ms : List (String × Value)) {first : Bool}
    {ts : List Token} {e : Token}, ts.map Token.kind = memberKinds first ms →
      e.kind = .flowMappingEnd → ∀ (goals : List Goal) (rest : List Token),
        ∃ n, n ≤ 2 * (memberKinds first ms).length + 1 ∧
          Worked handles n (.flowKey first :: goals) (ts ++ e :: rest) (mappingRow ms) goals rest
  | [], first, ts, ⟨kind, start, stop⟩, h, he, goals, rest => by
      obtain rfl := List.map_eq_nil_iff.1 h
      obtain rfl : kind = .flowMappingEnd := he
      refine ⟨1, Nat.le_refl 1, worked_found (e := (.mappingEnd, start)) ?_ rfl⟩
      cases first <;> rfl
  | (name, v) :: ms, first, ts, e, h, he, goals, rest => by
      obtain ⟨lead, tail, rfl, hlead, htail⟩ := List.map_eq_append_iff.1 h
      obtain ⟨ks, tail, rfl, hks, hvalues⟩ := List.map_eq_append_iff.1 htail
      obtain ⟨ts, us, rfl, hts, hus⟩ := List.map_eq_append_iff.1 hvalues
      obtain ⟨key, ks, rfl, hkey, hks⟩ := List.map_eq_cons_iff.1 hks
      obtain ⟨scalar, ks, rfl, hscalar, hks⟩ := List.map_eq_cons_iff.1 hks
      obtain ⟨colon, ks, rfl, hcolon, hnil⟩ := List.map_eq_cons_iff.1 hks
      obtain rfl := List.map_eq_nil_iff.1 hnil
      obtain ⟨n, hn, hvalue⟩ := workOff_value handles v hts false false
        (.flowKey false :: goals) (us ++ e :: rest)
      obtain ⟨k, hk, hmembers⟩ := workOff_members handles ms hus he goals rest
      obtain ⟨t, ts, rfl, ht⟩ := exists_begin hts
      have htext : [scalar].map Token.kind = [.scalar name.toList .marked] := by
        rw [List.map_singleton, hscalar]
      have hentry := worked_key hlead hkey hscalar handles goals
        (colon :: t :: (ts ++ (us ++ e :: rest)))
      have hname := worked_scalar htext handles false false (.flowValue :: goals)
        (colon :: t :: (ts ++ (us ++ e :: rest)))
      have hafter := worked_colon hcolon ht handles goals (ts ++ (us ++ e :: rest))
      refine ⟨1 + (1 + (1 + (n + k))), ?_, ?_⟩
      · simp only [memberKinds, List.length_append, List.length_cons, List.length_nil]
        omega
      · simp only [List.append_assoc, List.cons_append, List.nil_append, mappingRow] at hvalue ⊢
        exact hentry.trans (hname.trans (hafter.trans (hvalue.trans hmembers)))

end

/-! ### Streams -/

/-- **The events of a complete text.** -/
theorem events_whole {cs : List Char} {v : Value} (h : Whole v cs) :
    ∃ evs, Unanchored evs (row v) ∧ events cs = ⟨evs, true, none, false⟩ := by
  obtain ⟨ts, m, hts, htokens⟩ := tokens_whole h
  obtain ⟨n, hn, evs, hevs, hwork⟩ := workOff_value defaultHandles v hts true false []
    [Token.mk .streamEnd m m]
  have hlength : ts.length = (kinds v).length := by rw [← hts, List.length_map]
  obtain ⟨⟨kind, start, stop⟩, ts, rfl, ht⟩ := exists_begin hts
  have hfirst : firstRow (⟨kind, start, stop⟩ :: (ts ++ [Token.mk .streamEnd m m])) =
      some (workOff defaultHandles (8 * ((ts ++ [Token.mk .streamEnd m m]).length + 2))
        [.node true false] (⟨kind, start, stop⟩ :: (ts ++ [Token.mk .streamEnd m m]))) := by
    cases kind with
    | scalar => rfl
    | flowSequenceStart => rfl
    | flowMappingStart => rfl
    | _ => exact nomatch ht
  obtain ⟨fuel, hfuel⟩ : ∃ fuel, 8 * ((ts ++ [Token.mk .streamEnd m m]).length + 2) =
      fuel + 1 + n := by
    rw [List.length_cons] at hlength
    rw [List.length_append, List.length_singleton]
    exact ⟨8 * (ts.length + 1 + 2) - (n + 1), by omega⟩
  refine ⟨evs, hevs, ?_⟩
  rw [hfuel] at hfirst
  have hrow := hwork (fuel + 1)
  rw [List.cons_append] at hrow htokens
  simp only [events, htokens, hfirst, hrow]
  simp [workOff, EventRow.after, EventStream.ofRow, endsStream]

/-- The items of a complete text. -/
theorem items_of_unanchored {evs : List PlacedEvent} {items : List Item}
    (h : Unanchored evs items) :
    (Linked.ofEvents ⟨evs, true, none, false⟩).items.map Prod.fst = items :=
  linkFrom_items _ 0 h

end Yaml

end SecretResolver
