/-
**Texts for JSON and for YAML: the node.**

The words of JSON and its integers are resolved to what they are in JSON; what is marked as a text
is one.  As no object has a name twice, no mapping has a key twice, and a value is nested in YAML as
deep as in JSON.

Main definitions:

* `nodeOf` — the node of a value.

Main results:

* `scalarOf?_toString` — an integer is resolved from its text;
* `nodeAt_denotes`, `itemsBy_denotes`, `entriesBy_denotes` — **the node of a value**;
* `read_whole` — **a complete text is read**.
-/

import SecretResolver.Proofs.Interchange.Events
import SecretResolver.Proofs.Text.Utf8

set_option relaxedAutoImplicit false
set_option autoImplicit false

namespace SecretResolver

namespace Yaml

open Json (Value)
open Interchange (Blanks Denotes Items Lead Members Whole quotation)

variable {cs : List Char} {d : Linked} {jumps : Nat} {items rest : List PlacedItem}

/-! ### Integers -/

/-- Digits that denote a number in the usual way, without needless zeros. -/
structure Canonical (cs : List Char) : Prop where
  nonempty : cs ≠ []
  digits : ∀ c ∈ cs, Text.isDigit c = true
  zero : cs.head? = some '0' → cs = ['0']

theorem canonical_toDigits (n : Nat) : Canonical (Nat.toDigits 10 n) := by
  refine ⟨Nat.toDigits_ne_nil, fun c hc => Text.isDigit_of_mem_toDigits hc, fun h => ?_⟩
  by_cases hn : n = 0
  · rw [hn]
    rfl
  · exact absurd h (Text.head?_toDigits hn)

theorem digit?_ten {c : Char} (h : Text.isDigit c = true) :
    Numeral.digit? 10 c = some (Text.digitValue c) := by
  have hrange : ('0' ≤ c && c ≤ '9') = true := h
  have hle : c.toNat ≤ 57 := by
    have hnine : c ≤ '9' := by simpa using (Bool.and_eq_true_iff.1 hrange).2
    exact hnine
  have hlt : c.toNat - 48 < 10 := by omega
  simp only [Numeral.digit?, Text.hexDigit?, hrange, if_true]
  simp [Option.filter, hlt, Text.digitValue]

theorem Canonical.digits? (h : Canonical cs) :
    Numeral.digits? 10 cs = some (Text.ofDigits cs) := by
  have hfold : ∀ (ds : List Char) (n : Nat), (∀ c ∈ ds, Text.isDigit c = true) →
      ds.foldl (fun n c => n.bind fun n => (Numeral.digit? 10 c).map fun d => 10 * n + d) (some n) =
        some (ds.foldl (fun n c => 10 * n + Text.digitValue c) n) := by
    intro ds
    induction ds with
    | nil => exact fun n _ => rfl
    | cons c ds ih =>
        intro n hds
        have hc : Numeral.digit? 10 c = some (Text.digitValue c) := digit?_ten (hds c (by simp))
        simp only [List.foldl_cons, hc, Option.bind_some, Option.map_some]
        exact ih _ fun c hc => hds c (by simp [hc])
  have hempty : cs.isEmpty = false := by simpa using h.nonempty
  rw [Numeral.digits?, hempty]
  exact hfold cs 0 h.digits

/-- Such digits are in base ten, and no zero is in front. -/
theorem Canonical.based (h : Canonical cs) : based cs = (10, cs) := by
  unfold Yaml.based
  split
  · exact nomatch h.zero rfl
  · exact nomatch h.zero rfl
  · exact nomatch h.zero rfl
  · rfl

theorem Canonical.sign (h : Canonical cs) (negative : Bool) :
    Numeral.sign ((if negative = true then ['-'] else []) ++ cs) = (negative, cs) := by
  cases negative with
  | true => rfl
  | false =>
      have hsign : ∀ c ∈ cs.head?, c ≠ '-' ∧ c ≠ '+' := by
        intro c hc
        have hdigit := h.digits c (List.mem_of_mem_head? hc)
        refine ⟨?_, ?_⟩
        all_goals
          rintro rfl
          exact nomatch hdigit
      unfold Numeral.sign
      split
      · rename_i ds heq
        obtain rfl : cs = '-' :: ds := heq
        exact absurd rfl (hsign '-' rfl).1
      · rename_i ds heq
        obtain rfl : cs = '+' :: ds := heq
        exact absurd rfl (hsign '+' rfl).2
      · rfl

theorem Canonical.hasLeadingZero (h : Canonical cs) (negative : Bool) :
    hasLeadingZero ((if negative = true then ['-'] else []) ++ cs) = false := by
  rw [Yaml.hasLeadingZero, h.sign]
  split
  · rename_i heq
    obtain rfl : cs = _ := heq
    exact nomatch h.zero rfl
  · rfl

theorem integer?_toString (n : Int) : integer? (toString n) = some n := by
  have hcanonical := canonical_toDigits n.natAbs
  have htext : (toString n).toList =
      (if decide (n < 0) = true then ['-'] else []) ++ Nat.toDigits 10 n.natAbs := by
    rw [Text.toList_toString]
    simp only [decide_eq_true_eq]
  have hsigned : Numeral.signed (decide (n < 0)) n.natAbs = n := by
    simp only [Numeral.signed, decide_eq_true_eq]
    split <;> omega
  simp only [integer?, htext, hcanonical.hasLeadingZero, hcanonical.sign, hcanonical.based,
    hcanonical.digits?, Text.ofDigits_toDigits, Option.map_some, hsigned, Bool.false_eq_true,
    if_false]

/-- The texts with a meaning of their own as plain scalars, except the numbers. -/
def words : List String :=
  ["", "null", "Null", "NULL", "~", "true", "True", "TRUE", "false", "False", "FALSE"]

/-- The text of an integer is no such text. -/
theorem toString_not_mem_words (n : Int) : toString n ∉ words := by
  intro hmem
  have hwords : (words.all fun s => s.toList.head?.all fun c => !(Text.isDigit c || c == '-')) =
      true := by decide
  have hword := List.all_eq_true.1 hwords _ hmem
  obtain ⟨c, hc, hdigit⟩ : ∃ c, (toString n).toList.head? = some c ∧
      (Text.isDigit c || c == '-') = true := by
    have hcanonical := canonical_toDigits n.natAbs
    rw [Text.toList_toString]
    split
    · exact ⟨'-', rfl, rfl⟩
    · obtain ⟨c, ds, hds⟩ := List.exists_cons_of_ne_nil hcanonical.nonempty
      have hdigit : Text.isDigit c = true := hcanonical.digits c (by rw [hds]; simp)
      exact ⟨c, by rw [hds]; rfl, by rw [hdigit, Bool.true_or]⟩
  rw [hc, Option.all_some, hdigit] at hword
  exact nomatch hword

/-- What denotes an integer is one if it has 64 bits; beyond 128 bits it is read otherwise. -/
theorem scalarOf?_of_integer? {s : String} {n : Int} (hs : s ∉ words) (h : integer? s = some n) :
    scalarOf? s =
      if isWord n then some (.integer n)
      else if isDoubleWord n then none
      else some (realOrText s) := by
  simp only [words, List.mem_cons, List.not_mem_nil, or_false, not_or] at hs
  have hempty : s.isEmpty = false := by simp [hs]
  have hnull : isNull s = false := by simp [isNull, hs]
  have hflag : flag? s = none := by simp [flag?, hs]
  simp only [scalarOf?, hempty, hnull, hflag, h, Bool.or_self, Bool.false_eq_true, if_false]

/-- **An integer is resolved from its text.** -/
theorem scalarOf?_toString {n : Int} (hn : isWord n = true) :
    scalarOf? (toString n) = some (.integer n) :=
  (scalarOf?_of_integer? (toString_not_mem_words n) (integer?_toString n)).trans (if_pos hn)

/-! ### Nodes -/

mutual

/-- The node of a value. -/
def nodeOf : Value → Node
  | .null => .scalar .null
  | .flag b => .scalar (.flag b)
  | .number (.integer n) => .scalar (.integer n)
  | .number (.real x) => .scalar (.real x)
  | .text s => textNode s
  | .array vs => .sequence (itemNodes vs)
  | .object ms => .mapping (memberNodes ms)

/-- The nodes of the items of an array. -/
def itemNodes : List Value → List Node
  | [] => []
  | v :: vs => nodeOf v :: itemNodes vs

/-- The entries of the members of an object. -/
def memberNodes : List (String × Value) → List (Node × Node)
  | [] => []
  | (name, v) :: ms => (textNode name, nodeOf v) :: memberNodes ms

end

theorem nodeAt_scalar {text : String} {style : ScalarStyle} {s : Scalar}
    (hs : scalarValue? none text.toList style = some s)
    (h : items.map Prod.fst = [scalarItem text style]) (d : Linked) (depth jumps : Nat)
    (rest : List PlacedItem) :
    nodeAt scalarValue? d depth jumps (items ++ rest) = .ok (.scalar s, jumps, rest) := by
  obtain ⟨⟨item, m⟩, items, rfl, hitem, hitems⟩ := List.map_eq_cons_iff.1 h
  obtain rfl : item = scalarItem text style := hitem
  obtain rfl := List.map_eq_nil_iff.1 hitems
  cases depth <;> simp [nodeAt, walkNode, scalarItem, content, hs, withTag, ownTag?]

/-- What is marked as a text is one. -/
theorem scalarValue?_marked (s : String) : scalarValue? none s.toList .marked = some (.text s) := by
  have hmarked : scalarValue? none s.toList .marked = some (.text (String.ofList s.toList)) := rfl
  rw [hmarked, String.ofList_toList]

/-- One item of a sequence. -/
theorem itemsBy_cons {node : Walk Node} {fuel : Nat} {item : Item} {place : Mark} {n : Node}
    {ns : List Node} {items' : List PlacedItem} (hitem : item ≠ .closeSequence)
    (hn : node jumps ((item, place) :: items) = .ok (n, jumps, items'))
    (h : itemsBy d node fuel jumps items' = .ok (ns, jumps, rest)) :
    itemsBy d node (fuel + 1) jumps ((item, place) :: items) = .ok (n :: ns, jumps, rest) := by
  rw [itemsBy]
  · simp only [hn, h]
  · exact fun h => nomatch h
  · intro place' rest' h
    exact hitem (Prod.mk.inj (List.cons.inj h).1).1

theorem nodeAt_array {depth : Nat} {m : Mark} {vs : List Value}
    (h : itemsBy d (nodeAt scalarValue? d depth) (items.length + 1) jumps items =
      .ok (itemNodes vs, jumps, rest)) :
    nodeAt scalarValue? d (depth + 1) jumps ((.openSequence none, m) :: items) =
      .ok (nodeOf (.array vs), jumps, rest) := by
  simp only [nodeAt, walkNode, content, h]
  rfl

theorem nodeAt_object {depth : Nat} {m : Mark} {ms : List (String × Value)}
    (h : entriesBy d m (nodeAt scalarValue? d depth) (items.length + 1) [] jumps items =
      .ok (memberNodes ms, jumps, rest)) :
    nodeAt scalarValue? d (depth + 1) jumps ((.openMapping none, m) :: items) =
      .ok (nodeOf (.object ms), jumps, rest) := by
  simp only [nodeAt, walkNode, content, h]
  rfl

/-- The items of a value do not begin with the end of something else. -/
theorem exists_item {v : Value} (h : items.map Prod.fst = row v) :
    ∃ item m tail, items = (item, m) :: tail ∧ item ≠ .closeSequence := by
  obtain ⟨item, tail, hrow, hitem⟩ :
      ∃ item tail, row v = item :: tail ∧ item ≠ .closeSequence := by
    cases v <;> exact ⟨_, _, rfl, fun h => nomatch h⟩
  rw [hrow] at h
  obtain ⟨⟨item, m⟩, tail, rfl, rfl, -⟩ := List.map_eq_cons_iff.1 h
  exact ⟨item, m, tail, rfl, hitem⟩

theorem le_length_append (items rest : List PlacedItem) :
    items.length ≤ (items ++ rest).length + 1 := by
  rw [List.length_append]
  omega

mutual

/-- **The node of a value.** -/
theorem nodeAt_denotes {depth : Nat} {v : Value} {cs : List Char} :
    Denotes depth v cs → ∀ {items : List PlacedItem}, items.map Prod.fst = row v →
      ∀ (d : Linked) {depth' : Nat}, depth ≤ depth' → ∀ (jumps : Nat) (rest : List PlacedItem),
        nodeAt scalarValue? d depth' jumps (items ++ rest) = .ok (nodeOf v, jumps, rest)
  | .null _, _, h, d, depth', _, jumps, rest =>
      nodeAt_scalar (by decide) h d depth' jumps rest
  | .flag _ true, _, h, d, depth', _, jumps, rest =>
      nodeAt_scalar (by decide) h d depth' jumps rest
  | .flag _ false, _, h, d, depth', _, jumps, rest =>
      nodeAt_scalar (by decide) h d depth' jumps rest
  | @Denotes.integer _ n hn, _, h, d, depth', _, jumps, rest => by
      have hplain : scalarValue? none (toString n).toList .plain =
          scalarOf? (String.ofList (toString n).toList) := rfl
      rw [String.ofList_toList, scalarOf?_toString hn] at hplain
      exact nodeAt_scalar hplain h d depth' jumps rest
  | @Denotes.text _ s _ _, _, h, d, depth', _, jumps, rest =>
      nodeAt_scalar (scalarValue?_marked s) h d depth' jumps rest
  | .array _ hitems, _, h, d, depth', hdepth, jumps, rest => by
      obtain ⟨depth', rfl⟩ : ∃ n, depth' = n + 1 := ⟨depth' - 1, by omega⟩
      obtain ⟨⟨item, m⟩, items, rfl, hitem, htail⟩ := List.map_eq_cons_iff.1 h
      obtain rfl : item = .openSequence none := hitem
      exact nodeAt_array (itemsBy_denotes hitems htail d (Nat.le_of_succ_le_succ hdepth) jumps rest
        (le_length_append items rest))
  | .object _ hmembers hnames, _, h, d, depth', hdepth, jumps, rest => by
      obtain ⟨depth', rfl⟩ : ∃ n, depth' = n + 1 := ⟨depth' - 1, by omega⟩
      obtain ⟨⟨item, m⟩, items, rfl, hitem, htail⟩ := List.map_eq_cons_iff.1 h
      obtain rfl : item = .openMapping none := hitem
      exact nodeAt_object (entriesBy_denotes hmembers htail hnames d m
        (Nat.le_of_succ_le_succ hdepth) (by simp [Apart]) jumps rest (le_length_append items rest))

/-- The nodes of the items of an array. -/
theorem itemsBy_denotes {depth : Nat} {first : Bool} {vs : List Value} {body : List Char} :
    Items depth first vs body → ∀ {items : List PlacedItem}, items.map Prod.fst = sequenceRow vs →
      ∀ (d : Linked) {depth' : Nat}, depth ≤ depth' → ∀ (jumps : Nat) (rest : List PlacedItem)
        {fuel : Nat}, items.length ≤ fuel →
          itemsBy d (nodeAt scalarValue? d depth') fuel jumps (items ++ rest) =
            .ok (itemNodes vs, jumps, rest)
  | .done _ _, items, h, d, depth', hdepth, jumps, rest, fuel, hfuel => by
      obtain ⟨⟨item, m⟩, items, rfl, hitem, htail⟩ := List.map_eq_cons_iff.1 h
      obtain rfl : item = .closeSequence := hitem
      obtain rfl := List.map_eq_nil_iff.1 htail
      obtain ⟨fuel, rfl⟩ : ∃ n, fuel = n + 1 := Nat.exists_eq_add_of_le' hfuel
      rfl
  | .more _ hv _ hitems, items, h, d, depth', hdepth, jumps, rest, fuel, hfuel => by
      obtain ⟨items, tail, rfl, hrow, htail⟩ := List.map_eq_append_iff.1 h
      have hnode := nodeAt_denotes hv hrow d hdepth jumps (tail ++ rest)
      obtain ⟨item, m, items, rfl, hitem⟩ := exists_item hrow
      rw [List.length_append, List.length_cons] at hfuel
      obtain ⟨fuel, rfl⟩ : ∃ n, fuel = n + 1 := ⟨fuel - 1, by omega⟩
      have hlength : tail.length ≤ fuel := by omega
      have hrest := itemsBy_denotes hitems htail d hdepth jumps rest hlength
      rw [List.append_assoc]
      exact itemsBy_cons hitem hnode hrest

/-- The entries of the members of an object. -/
theorem entriesBy_denotes {depth : Nat} {first : Bool} {ms : List (String × Value)}
    {body : List Char} :
    Members depth first ms body → ∀ {items : List PlacedItem},
      items.map Prod.fst = mappingRow ms → (ms.map Prod.fst).Nodup →
        ∀ (d : Linked) (m : Mark) {depth' : Nat}, depth ≤ depth' →
          ∀ {before : List (Node × Node)}, Apart (ms.map Prod.fst) before →
            ∀ (jumps : Nat) (rest : List PlacedItem) {fuel : Nat}, items.length ≤ fuel →
              entriesBy d m (nodeAt scalarValue? d depth') fuel before jumps (items ++ rest) =
                .ok (memberNodes ms, jumps, rest)
  | .done _ _, items, h, _, d, m, depth', hdepth, before, _, jumps, rest, fuel, hfuel => by
      obtain ⟨⟨item, place⟩, items, rfl, hitem, htail⟩ := List.map_eq_cons_iff.1 h
      obtain rfl : item = .closeMapping := hitem
      obtain rfl := List.map_eq_nil_iff.1 htail
      obtain ⟨fuel, rfl⟩ : ∃ n, fuel = n + 1 := Nat.exists_eq_add_of_le' hfuel
      rfl
  | @Members.more _ _ name v ms _ _ _ _ _ _ _ _ _ _ _ _ hv _ hmembers, items, h, hnames, d, m,
      depth', hdepth, before, hbefore, jumps, rest, fuel, hfuel => by
      obtain ⟨⟨item, place⟩, items, rfl, hitem, hvalues⟩ := List.map_eq_cons_iff.1 h
      obtain rfl : item = scalarItem name .marked := hitem
      obtain ⟨items, tail, rfl, hrow, htail⟩ := List.map_eq_append_iff.1 hvalues
      rw [List.map_cons, List.nodup_cons] at hnames
      rw [List.length_cons, List.length_append] at hfuel
      obtain ⟨fuel, rfl⟩ : ∃ n, fuel = n + 1 := ⟨fuel - 1, by omega⟩
      have hlength : tail.length ≤ fuel := by omega
      have hname : [(scalarItem name .marked, place)].map Prod.fst =
          [scalarItem name .marked] := rfl
      have hkey := nodeAt_scalar (scalarValue?_marked name) hname d depth' jumps
        (items ++ (tail ++ rest))
      have hvalue := nodeAt_denotes hv hrow d hdepth jumps (tail ++ rest)
      have hrest := entriesBy_denotes hmembers htail hnames.2 d m hdepth
        (hbefore.cons hnames.1 (nodeOf v)) jumps rest hlength
      rw [List.cons_append, List.append_assoc]
      exact entriesBy_cons (fun h => nomatch h) hkey hbefore.fresh hvalue hrest

end

/-! ### Streams -/

/-- A text that a stream may hold. -/
def Allowed (cs : List Char) : Prop := ∀ c ∈ cs, isAllowed c = true

theorem Allowed.append {cs ds : List Char} (h : Allowed cs) (h' : Allowed ds) :
    Allowed (cs ++ ds) :=
  List.forall_mem_append.2 ⟨h, h'⟩

theorem Allowed.cons {c : Char} (hc : isAllowed c = true) (h : Allowed cs) : Allowed (c :: cs) :=
  List.forall_mem_cons.2 ⟨hc, h⟩

theorem Allowed.of_all (h : cs.all isAllowed = true) : Allowed cs := List.all_eq_true.1 h

theorem allowed_blanks (h : Blanks cs) : Allowed cs := by
  intro c hc
  rcases h c hc with rfl | rfl | rfl | rfl <;> rfl

theorem allowed_bare (h : Bare cs) : Allowed cs :=
  fun c hc => isAllowed_of_shown (isShown_of_isBare (h.isBare c hc))

theorem allowed_quotation {w : List Char} (h : Text.Spelled Interchange.Stands cs w) :
    Allowed (quotation w) :=
  fun c hc => (line_of_quotation h c hc).2

theorem allowed_lead {first : Bool} (h : Lead first cs) : Allowed cs := by
  cases h with
  | first => exact .of_all rfl
  | comma hws => exact .cons rfl (allowed_blanks hws)

mutual

/-- A stream may hold the text of any value. -/
theorem allowed_denotes {depth : Nat} {v : Value} {cs : List Char} :
    Denotes depth v cs → Allowed cs
  | .null _ => allowed_bare bare_null
  | .flag _ b => allowed_bare (bare_flagText b)
  | .integer _ _ => allowed_bare (bare_toString _)
  | .text _ h => allowed_quotation h
  | .array hws h => .cons rfl (((allowed_blanks hws).append (allowed_items h)).append (.of_all rfl))
  | .object hws h _ =>
      .cons rfl (((allowed_blanks hws).append (allowed_members h)).append (.of_all rfl))

theorem allowed_items {depth : Nat} {first : Bool} {vs : List Value} {body : List Char} :
    Items depth first vs body → Allowed body
  | .done _ _ => .of_all rfl
  | .more hlead hv hws h =>
      (allowed_lead hlead).append
        ((allowed_denotes hv).append ((allowed_blanks hws).append (allowed_items h)))

theorem allowed_members {depth : Nat} {first : Bool} {ms : List (String × Value)}
    {body : List Char} : Members depth first ms body → Allowed body
  | .done _ _ => .of_all rfl
  | .more hlead hname hgap _ hbefore hv hws h =>
      (allowed_lead hlead).append ((allowed_quotation hname).append
        ((allowed_blanks hgap.blanks).append (.cons rfl ((allowed_blanks hbefore).append
          ((allowed_denotes hv).append ((allowed_blanks hws).append (allowed_members h)))))))

end

/-- **A complete text is read.** -/
theorem read_whole {v : Value} (h : Whole v cs) : read (Utf8.encode cs) = .ok (nodeOf v) := by
  obtain ⟨evs, hevs, hevents⟩ := events_whole h
  have hitems := items_of_unanchored hevs
  obtain ⟨hbefore, h, hafter⟩ := h
  rename_i before cs after
  have hallowed : Allowed (before ++ (cs ++ after)) := (allowed_blanks hbefore.blanks).append
    ((allowed_denotes h).append (allowed_blanks hafter.1))
  have hcharacters : characters (Utf8.encode (before ++ (cs ++ after))) =
      some (before ++ (cs ++ after)) := by
    simp only [characters, Utf8.decode_encode, List.all_eq_true.2 hallowed, if_true]
  have hnode := nodeAt_denotes h hitems (Linked.ofEvents ⟨evs, true, none, false⟩)
    (Nat.le_succ Json.maxDepth) 0 []
  rw [List.append_nil] at hnode
  have hdepth : maxDepth = Json.maxDepth + 1 := rfl
  simp only [read, hcharacters, hevents, Node.ofEvents, hdepth, hnode]
  rfl

end Yaml

end SecretResolver
