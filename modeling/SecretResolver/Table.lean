/-
**Tables: names with values, in the order in which the names first came.**

Parameters, fields of mappings and tracked references are all kept in the order of insertion, and
no name occurs twice.  `Entries` holds the operations on bare lists of pairs; a `Table` is such a
list together with the proof that its names are distinct.

Main definitions:

* `Entries.find?`, `Entries.put`, `Entries.drop`, `Entries.gather`;
* `Table`, with `get?`, `contains`, `add?`, `put`, `ofEntries`;
* `Table.sameAs` — equality up to the order of the entries.

Main results:

* `Entries.find?_put`, `Entries.find?_drop`, `Entries.find?_filter`, `Entries.find?_append`;
* `Entries.names_put`, `Entries.names_put_nodup`;
* `Table.ext_entries` — a table is determined by its entries;
* `Table.add?_eq_some_iff` — a new entry comes at the end;
* `Table.get?_of_add?` — and is found after all others.
-/

set_option relaxedAutoImplicit false
set_option autoImplicit false

namespace SecretResolver

universe u v

namespace Entries

variable {κ : Type u} {β : Type v}

/-- The names in order. -/
def names (es : List (κ × β)) : List κ := es.map Prod.fst

@[simp] theorem names_nil : names ([] : List (κ × β)) = [] := rfl

@[simp] theorem names_cons (e : κ × β) (es : List (κ × β)) :
    names (e :: es) = e.1 :: names es := rfl

@[simp] theorem names_append (es fs : List (κ × β)) :
    names (es ++ fs) = names es ++ names fs := List.map_append ..

variable [DecidableEq κ]

/-- The value of the first entry with the name `k`. -/
def find? (k : κ) : List (κ × β) → Option β
  | [] => none
  | (k', v) :: es => if k' = k then some v else find? k es

/-- The entries with `k` standing for `v`: in the place where `k` already is, else at the end. -/
def put (k : κ) (v : β) : List (κ × β) → List (κ × β)
  | [] => [(k, v)]
  | (k', v') :: es => if k' = k then (k, v) :: es else (k', v') :: put k v es

/-- The entries without those named `k`. -/
def drop (k : κ) (es : List (κ × β)) : List (κ × β) := es.filter fun e => e.1 ≠ k

/-- The entries with every repeated name kept at its first place with its last value. -/
def gather (es : List (κ × β)) : List (κ × β) :=
  es.foldl (fun acc e => put e.1 e.2 acc) []

@[simp] theorem find?_nil (k : κ) : find? k ([] : List (κ × β)) = none := rfl

theorem find?_cons (k : κ) (e : κ × β) (es : List (κ × β)) :
    find? k (e :: es) = if e.1 = k then some e.2 else find? k es := rfl

theorem find?_append (k : κ) (es fs : List (κ × β)) :
    find? k (es ++ fs) = (find? k es).or (find? k fs) := by
  induction es with
  | nil => simp
  | cons e es ih =>
      by_cases h : e.1 = k
      · simp [find?_cons, h]
      · simp [find?_cons, h, ih]

theorem find?_eq_none_iff {k : κ} {es : List (κ × β)} : find? k es = none ↔ k ∉ names es := by
  induction es with
  | nil => simp
  | cons e es ih =>
      by_cases h : e.1 = k
      · simp [find?_cons, h]
      · simp [find?_cons, h, Ne.symm h, ih]

theorem find?_drop (k k' : κ) (es : List (κ × β)) :
    find? k' (drop k es) = if k = k' then none else find? k' es := by
  induction es with
  | nil => simp [drop]
  | cons e es ih =>
      have ih : find? k' (List.filter (fun e => e.1 ≠ k) es) =
          if k = k' then none else find? k' es := ih
      by_cases he : e.1 = k
      · by_cases hk : k = k'
        · simpa [drop, he, hk] using ih
        · have hne : ¬ e.1 = k' := fun h => hk (he.symm.trans h)
          simpa [drop, find?_cons, he, hk, hne] using ih
      · by_cases hk : e.1 = k'
        · have hne : ¬ k = k' := fun h => he (hk.trans h.symm)
          simp [drop, find?_cons, hk, hne, Ne.symm hne]
        · simpa [drop, find?_cons, he, hk] using ih

theorem find?_drop_eq_some_iff {k k' : κ} {v : β} {es : List (κ × β)} :
    find? k' (drop k es) = some v ↔ k ≠ k' ∧ find? k' es = some v := by
  rw [find?_drop]
  split <;> simp [*]

theorem drop_eq_self {k : κ} {es : List (κ × β)} (h : find? k es = none) : drop k es = es := by
  refine List.filter_eq_self.2 fun e he => ?_
  have hk := find?_eq_none_iff.1 h
  simp only [decide_eq_true_eq]
  rintro rfl
  exact hk (List.mem_map.2 ⟨e, he, rfl⟩)

theorem not_mem_names_drop (k : κ) (es : List (κ × β)) : k ∉ names (drop k es) :=
  find?_eq_none_iff.1 (by simp [find?_drop])

theorem length_drop_lt {k : κ} {es : List (κ × β)} (h : k ∈ names es) :
    (drop k es).length < es.length := by
  refine List.length_filter_lt_length_iff_exists.2 ?_
  obtain ⟨e, he, rfl⟩ := List.mem_map.1 h
  exact ⟨e, he, by simp⟩

/-- Entries with distinct names are found again after some of them were removed. -/
theorem find?_filter (k : κ) (p : κ × β → Bool) {es : List (κ × β)} (h : (names es).Nodup) :
    find? k (es.filter p) = (find? k es).filter fun v => p (k, v) := by
  induction es with
  | nil => simp
  | cons e es ih =>
      simp only [names_cons, List.nodup_cons] at h
      obtain ⟨a, v⟩ := e
      by_cases ha : a = k
      · subst ha
        have hno : find? a es = none := find?_eq_none_iff.2 h.1
        have hrest : find? a (es.filter p) = none := by rw [ih h.2, hno]; rfl
        by_cases hp : p (a, v) = true
        · simp [find?_cons, hp, Option.filter]
        · simp [find?_cons, hp, hrest, Option.filter]
      · by_cases hp : p (a, v) = true
        · simp [find?_cons, hp, ha, ih h.2]
        · simp [find?_cons, hp, ha, ih h.2]

theorem find?_put (k k' : κ) (v : β) (es : List (κ × β)) :
    find? k' (put k v es) = if k = k' then some v else find? k' es := by
  induction es with
  | nil => by_cases h : k = k' <;> simp [put, find?, h]
  | cons e es ih =>
      obtain ⟨a, w⟩ := e
      by_cases ha : a = k
      · subst ha
        by_cases h : a = k' <;> simp [put, find?, h]
      · by_cases h : a = k'
        · subst h
          simp [put, find?, ha, Ne.symm ha]
        · simp [put, find?, ha, h, ih]

theorem find?_put_self (k : κ) (v : β) (es : List (κ × β)) : find? k (put k v es) = some v := by
  rw [find?_put, if_pos rfl]

theorem names_put (k : κ) (v : β) (es : List (κ × β)) :
    names (put k v es) = if k ∈ names es then names es else names es ++ [k] := by
  induction es with
  | nil => simp [put]
  | cons e es ih =>
      obtain ⟨a, w⟩ := e
      by_cases ha : a = k
      · simp [put, ha]
      · by_cases h : k ∈ names es
        · simp [put, ha, ih, h]
        · simp [put, ha, Ne.symm ha, ih, h]

theorem put_of_not_mem {k : κ} {v : β} {es : List (κ × β)} (h : k ∉ names es) :
    put k v es = es ++ [(k, v)] := by
  induction es with
  | nil => rfl
  | cons e es ih =>
      rw [names_cons, List.mem_cons, not_or] at h
      rw [put, if_neg (Ne.symm h.1), ih h.2, List.cons_append]

theorem names_put_nodup {k : κ} {v : β} {es : List (κ × β)} (h : (names es).Nodup) :
    (names (put k v es)).Nodup := by
  rw [names_put]
  split
  · exact h
  · rename_i hk
    rw [List.nodup_append]
    refine ⟨h, by simp, ?_⟩
    intro a ha b hb
    simp only [List.mem_singleton] at hb
    subst hb
    rintro rfl
    exact hk ha

theorem names_drop_nodup {k : κ} {es : List (κ × β)} (h : (names es).Nodup) :
    (names (drop k es)).Nodup :=
  h.sublist (List.Sublist.map _ List.filter_sublist)

theorem names_gather_nodup (es : List (κ × β)) : (names (gather es)).Nodup := by
  suffices ∀ acc : List (κ × β), (names acc).Nodup →
      (names (es.foldl (fun acc e => put e.1 e.2 acc) acc)).Nodup from this [] (by simp)
  induction es with
  | nil => exact fun acc h => h
  | cons e es ih => exact fun acc h => ih _ (names_put_nodup h)

/-- Entries whose names are distinct are kept as they are. -/
theorem gather_of_nodup {es : List (κ × β)} (h : (names es).Nodup) : gather es = es := by
  suffices ∀ acc : List (κ × β), (names (acc ++ es)).Nodup →
      es.foldl (fun acc e => put e.1 e.2 acc) acc = acc ++ es from this [] h
  induction es with
  | nil => exact fun acc _ => (List.append_nil acc).symm
  | cons e es ih =>
      intro acc hacc
      have hmem : e.1 ∉ names acc := by
        rw [names_append, List.nodup_append] at hacc
        exact fun he => hacc.2.2 e.1 he e.1 (by simp) rfl
      have hnodup : (names ((acc ++ [e]) ++ es)).Nodup := by
        rwa [List.append_assoc, List.singleton_append]
      rw [names_cons, List.nodup_cons] at h
      rw [List.foldl_cons, put_of_not_mem hmem, ih h.2 _ hnodup, List.append_assoc,
        List.singleton_append]

/-- What is found is there. -/
theorem mem_of_find? {k : κ} {v : β} {es : List (κ × β)} (h : find? k es = some v) :
    (k, v) ∈ es := by
  induction es with
  | nil => simp at h
  | cons e es ih =>
      obtain ⟨a, w⟩ := e
      rw [find?_cons] at h
      split at h
      · rename_i ha
        obtain rfl : w = v := Option.some.inj h
        obtain rfl : a = k := ha
        exact List.mem_cons_self ..
      · exact List.mem_cons_of_mem _ (ih h)

/-- Every entry is found again under its name. -/
theorem mem_iff_find? {k : κ} {v : β} {es : List (κ × β)} (h : (names es).Nodup) :
    (k, v) ∈ es ↔ find? k es = some v := by
  induction es with
  | nil => simp
  | cons e es ih =>
      obtain ⟨a, w⟩ := e
      simp only [names_cons, List.nodup_cons] at h
      by_cases ha : a = k
      · subst ha
        simp only [find?, if_true, Option.some.injEq, List.mem_cons, Prod.mk.injEq, true_and]
        constructor
        · rintro (rfl | hm)
          · rfl
          · exact absurd (List.mem_map.2 ⟨_, hm, rfl⟩) h.1
        · rintro rfl
          exact .inl rfl
      · simp [find?, ha, Ne.symm ha, ih h.2]

end Entries

/-! ### Tables -/

/-- Names with values; no name occurs twice. -/
structure Table (β : Type v) where
  entries : List (String × β)
  distinct : (Entries.names entries).Nodup

namespace Table

variable {β : Type v}

theorem ext_entries {s t : Table β} (h : s.entries = t.entries) : s = t := by
  cases s
  cases t
  cases h
  rfl

instance [DecidableEq β] : DecidableEq (Table β) := fun s t =>
  decidable_of_iff (s.entries = t.entries) ⟨ext_entries, fun h => h ▸ rfl⟩

instance [Repr β] : Repr (Table β) := ⟨fun t n => reprPrec t.entries n⟩

/-- The table without entries. -/
def empty : Table β := ⟨[], by simp⟩

instance : Inhabited (Table β) := ⟨empty⟩

/-- The number of entries. -/
def size (t : Table β) : Nat := t.entries.length

/-- The names in order. -/
def names (t : Table β) : List String := Entries.names t.entries

/-- The value of a name. -/
def get? (t : Table β) (k : String) : Option β := Entries.find? k t.entries

/-- Whether a name has a value. -/
def contains (t : Table β) (k : String) : Bool := (t.get? k).isSome

/-- The table with `k` standing for `v`. -/
def put (t : Table β) (k : String) (v : β) : Table β :=
  ⟨Entries.put k v t.entries, Entries.names_put_nodup t.distinct⟩

/-- The table with a new entry at the end, unless its name is already there. -/
def add? (t : Table β) (k : String) (v : β) : Option (Table β) :=
  if k ∈ t.names then none else some (t.put k v)

/-- The table of some entries: a repeated name keeps its first place and takes its last value. -/
def ofEntries (es : List (String × β)) : Table β :=
  ⟨Entries.gather es, Entries.names_gather_nodup es⟩

/-- The table without the entry named `k`. -/
def erase (t : Table β) (k : String) : Table β :=
  ⟨Entries.drop k t.entries, Entries.names_drop_nodup t.distinct⟩

theorem get?_put (t : Table β) (k k' : String) (v : β) :
    (t.put k v).get? k' = if k = k' then some v else t.get? k' :=
  Entries.find?_put k k' v t.entries

/-- A new entry comes at the end; there is none for a name that is taken. -/
theorem add?_eq_some_iff {t t' : Table β} {k : String} {v : β} :
    t.add? k v = some t' ↔ t'.entries = t.entries ++ [(k, v)] := by
  unfold add?
  split
  · rename_i hk
    refine ⟨fun h => absurd h (by simp), fun h => ?_⟩
    have hd := t'.distinct
    rw [h, Entries.names_append, List.nodup_append] at hd
    exact absurd rfl (hd.2.2 k hk k (by simp))
  · rename_i hk
    have hput : (t.put k v).entries = t.entries ++ [(k, v)] := Entries.put_of_not_mem hk
    rw [Option.some.injEq, ← hput]
    exact ⟨fun h => h ▸ rfl, fun h => ext_entries h.symm⟩

/-- What is found after a new entry was added: what was there before comes first. -/
theorem get?_of_add? {t t' : Table β} {k : String} {v : β} (h : t.add? k v = some t')
    (k' : String) : t'.get? k' = (t.get? k').or (if k = k' then some v else none) := by
  unfold get?
  rw [add?_eq_some_iff.1 h, Entries.find?_append]
  rfl

theorem nodup_names (t : Table β) : t.names.Nodup := t.distinct

theorem mem_names_iff {t : Table β} {k : String} : k ∈ t.names ↔ (t.get? k).isSome = true := by
  unfold names get?
  cases h : Entries.find? k t.entries with
  | none => simpa using Entries.find?_eq_none_iff.1 h
  | some v => exact ⟨fun _ => rfl, fun _ => List.mem_map.2 ⟨_, Entries.mem_of_find? h, rfl⟩⟩

theorem mem_entries_iff {t : Table β} {k : String} {v : β} :
    (k, v) ∈ t.entries ↔ t.get? k = some v := Entries.mem_iff_find? t.distinct

/-- Whether two tables have the same entries, in whatever order. -/
def sameAs [DecidableEq β] (s t : Table β) : Bool :=
  s.size == t.size && s.entries.all fun e => t.get? e.1 = some e.2

theorem sameAs_of_perm [DecidableEq β] {s t : Table β} (h : s.entries.Perm t.entries) :
    s.sameAs t = true := by
  simp only [sameAs, size, h.length_eq, beq_self_eq_true, Bool.true_and, List.all_eq_true,
    decide_eq_true_eq]
  intro e he
  exact mem_entries_iff.1 (h.mem_iff.1 he)

end Table

end SecretResolver
