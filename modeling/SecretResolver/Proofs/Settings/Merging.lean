/-
**Merging, field by field.**

The settings lie in sections, which are tables at the top of a layer.  What a field of a section is
after one layer was put over another is the last value that the upper layer gives to this field, be
it within the section or under a path of its own, and where it gives none, what the field was in the
lower layer.  Nothing else in the upper layer touches the field, as long as no other value is given
to the section as a whole and no path leads on from the field.

Main definitions:

* `Layer.field?` — a field of a section;
* `Layer.given` — the values that a layer gives to a field;
* `Layer.LeavesRoom` — nothing else touches the field.

Main results:

* `Layer.find?_putAll` — a field of a table that was put into another one;
* `Layer.field?_onto` — **a field after one layer was put over another**.
-/

import SecretResolver.Settings.Layer

set_option relaxedAutoImplicit false
set_option autoImplicit false

namespace SecretResolver

namespace Layer

variable {part field : String} {l : Layer}

/-! ### Fields of sections -/

/-- The fields of a section. -/
def fieldsOf (part : String) (l : Layer) : Layer := (l.valueOf part).fields

/-- A field of a section. -/
def field? (part field : String) (l : Layer) : Option Setting :=
  Entries.find? field (l.fieldsOf part)

/-- The values that stand under a name. -/
def under (name : String) (fields : Layer) : List Setting :=
  (fields.filter fun f => f.1 = name).map Prod.snd

/-- The values that an entry of a layer gives to a field. -/
def givenBy (part field : String) (f : String × Setting) : List Setting :=
  if pathOf f.1 = [part] then under field f.2.fields
  else if pathOf f.1 = [part, field] then [f.2]
  else []

/-- The values that a layer gives to a field of a section, within the section or under a path of
their own, in their order. -/
def given (part field : String) (l : Layer) : List Setting := l.flatMap (givenBy part field)

/-- An entry of a layer that touches a field of a section at most by giving it a single value: what
it puts in place of the section is a table, and what it gives to the field is no table and stands at
no longer path. -/
structure Spares (part field : String) (f : String × Setting) : Prop where
  section_ : pathOf f.1 = [part] → ∃ origin fields, f.2 = .table origin fields
  single : ∀ v ∈ givenBy part field f, ∃ origin value, v = .leaf origin value
  path : ∀ more, pathOf f.1 = part :: field :: more → more = []

/-- Nothing in a layer touches a field of a section except by giving it a single value. -/
def LeavesRoom (part field : String) (l : Layer) : Prop := ∀ f ∈ l, Spares part field f

/-- Tables of single values leave room for every field. -/
theorem leavesRoom_of_sections (h : ∀ f ∈ l, pathOf f.1 = [f.1] ∧ ∃ origin fields,
    f.2 = .table origin fields ∧ ∀ g ∈ fields, ∃ origin value, g.2 = .leaf origin value) :
    l.LeavesRoom part field := by
  intro f hf
  obtain ⟨hpath, origin, fields, hv, hleaves⟩ := h f hf
  refine ⟨fun _ => ⟨origin, fields, hv⟩, ?_, ?_⟩
  · intro v hmem
    have hgiven : givenBy part field f = if [f.1] = [part] then under field fields else [] := by
      simp [givenBy, hpath, hv, Setting.fields]
    rw [hgiven] at hmem
    split at hmem
    · obtain ⟨g, hg, rfl⟩ := List.mem_map.1 hmem
      exact hleaves g (List.mem_filter.1 hg).1
    · exact nomatch hmem
  · intro more hmore
    rw [hpath] at hmore
    exact absurd (congrArg List.length hmore) (by simp)

/-! ### Putting -/

/-- A value that is put under a name leaves the other names as they are. -/
theorem find?_put_of_ne {name name' : String} (h : name ≠ name') (v : Setting) (l : Layer) :
    Entries.find? name' (put name v l) = Entries.find? name' l := by
  cases v with
  | leaf origin value => rw [put, Entries.find?_put, if_neg h]
  | list origin items => rw [put, Entries.find?_put, if_neg h]
  | table origin fields =>
      cases fields with
      | nil => rw [put, Entries.find?_put, if_neg h]
      | cons f fs => rw [put, Entries.find?_put, if_neg h]

theorem find?_put_leaf (name : String) (origin : Option String) (value : Leaf) (l : Layer) :
    Entries.find? name (put name (.leaf origin value) l) = some (.leaf origin value) := by
  rw [put, Entries.find?_put_self]

theorem valueOf_of_find? {name : String} {v : Setting} (h : Entries.find? name l = some v) :
    l.valueOf name = v := by rw [valueOf, h, Option.getD_some]

/-- The last of some values, or else another one. -/
theorem or_getLast?_append {α : Type} (xs ys : List α) (x : Option α) :
    (xs ++ ys).getLast?.or x = ys.getLast?.or (xs.getLast?.or x) := by
  rw [List.getLast?_append, Option.or_assoc]

/-- What stands under a name in a table that was put into another one: the last single value that
comes with this name, or else what was there. -/
theorem find?_putAll {name : String} (fields : Layer)
    (h : ∀ v ∈ under name fields, ∃ origin value, v = .leaf origin value) (l : Layer) :
    Entries.find? name (putAll fields l) =
      (under name fields).getLast?.or (Entries.find? name l) := by
  induction fields generalizing l with
  | nil => rfl
  | cons f fs ih =>
      have hrest : ∀ v ∈ under name fs, ∃ origin value, v = .leaf origin value := by
        intro v hv
        refine h v ?_
        obtain ⟨g, hg, rfl⟩ := List.mem_map.1 hv
        obtain ⟨hmem, hname⟩ := List.mem_filter.1 hg
        exact List.mem_map.2 ⟨g, List.mem_filter.2 ⟨List.mem_cons_of_mem f hmem, hname⟩, rfl⟩
      rw [putAll, ih hrest]
      by_cases hname : f.1 = name
      · have hunder : under name (f :: fs) = [f.2] ++ under name fs := by
          simp [under, hname]
        obtain ⟨origin, value, hleaf⟩ := h f.2 (by rw [hunder]; simp)
        rw [hunder, or_getLast?_append, hleaf, hname, find?_put_leaf]
        rfl
      · have hunder : under name (f :: fs) = under name fs := by simp [under, hname]
        rw [hunder, find?_put_of_ne hname]

/-- The fields of a section after a table was put in its place. -/
theorem fieldsOf_put_table (part : String) (origin : Option String) (fields l : Layer) :
    (put part (.table origin fields) l).fieldsOf part = putAll fields (l.fieldsOf part) := by
  cases fields with
  | nil =>
      have hfind : Entries.find? part (put part (.table origin []) l) = some (l.valueOf part) := by
        rw [put, Entries.find?_put_self]
      rw [fieldsOf, valueOf_of_find? hfind, putAll, fieldsOf]
  | cons f fs =>
      have hfind : Entries.find? part (put part (.table origin (f :: fs)) l) =
          some (.table (l.valueOf part).tableOrigin
            (putAll fs (put f.1 f.2 (l.valueOf part).fields))) := by
        rw [put, Entries.find?_put_self]
      rw [fieldsOf, valueOf_of_find? hfind, putAll]
      rfl

/-! ### Paths -/

theorem putAt_cons (name name' : String) (more : List String) (v : Setting) (l : Layer) :
    putAt (name :: name' :: more) v l =
      Entries.put name (.table (l.valueOf name).tableOrigin
        (putAt (name' :: more) v (l.valueOf name).fields)) l := rfl

theorem fieldsOf_putAt (part name : String) (more : List String) (v : Setting) (l : Layer) :
    (putAt (part :: name :: more) v l).fieldsOf part = putAt (name :: more) v (l.fieldsOf part) := by
  have hfind : Entries.find? part (putAt (part :: name :: more) v l) =
      some (.table (l.valueOf part).tableOrigin (putAt (name :: more) v (l.valueOf part).fields)) := by
    rw [putAt_cons, Entries.find?_put_self]
  rw [fieldsOf, valueOf_of_find? hfind]
  rfl

/-- What is put at a path leaves the names as they are with which the path does not begin. -/
theorem find?_putAt_of_ne {name name' : String} (h : name ≠ name') (more : List String) (v : Setting)
    (l : Layer) : Entries.find? name' (putAt (name :: more) v l) = Entries.find? name' l := by
  cases more with
  | nil => exact find?_put_of_ne h v l
  | cons name'' more => rw [putAt_cons, Entries.find?_put, if_neg h]

theorem pathOf_ne_nil (key : String) : pathOf key ≠ [] := by
  unfold pathOf
  dsimp only
  split
  · simpa using Text.splitAll_ne_nil '.' key.toList
  · simp

/-- A field after one entry of an upper layer. -/
theorem field?_putAt {f : String × Setting} (h : Spares part field f) (l : Layer) :
    field? part field (putAt (pathOf f.1) f.2 l) =
      (givenBy part field f).getLast?.or (field? part field l) := by
  obtain ⟨name, more, hpath⟩ := List.exists_cons_of_ne_nil (pathOf_ne_nil f.1)
  by_cases hname : name = part
  · subst hname
    cases more with
    | nil =>
        obtain ⟨origin, fields, hv⟩ := h.section_ hpath
        have hgiven : givenBy name field f = under field fields := by
          rw [givenBy, if_pos hpath, hv]
          rfl
        have hleaves := h.single
        rw [hgiven] at hleaves ⊢
        rw [hpath, hv, putAt, field?, fieldsOf_put_table, find?_putAll fields hleaves]
        rfl
    | cons name' more =>
        rw [hpath, field?, fieldsOf_putAt]
        by_cases hfield : name' = field
        · subst hfield
          obtain rfl := h.path more hpath
          have hgiven : givenBy name name' f = [f.2] := by simp [givenBy, hpath]
          obtain ⟨origin, value, hv⟩ := h.single f.2 (by rw [hgiven]; simp)
          rw [hgiven, putAt, hv, find?_put_leaf]
          rfl
        · have hgiven : givenBy name field f = [] := by simp [givenBy, hpath, hfield]
          rw [hgiven, find?_putAt_of_ne hfield]
          rfl
  · have hgiven : givenBy part field f = [] := by simp [givenBy, hpath, hname]
    rw [hgiven, hpath, field?, fieldsOf, valueOf, find?_putAt_of_ne hname]
    rfl

/-- **A field after one layer was put over another** is the last value that the upper layer gives to
it, or else what it was in the lower one. -/
theorem field?_onto {upper : Layer} (h : LeavesRoom part field upper) (lower : Layer) :
    field? part field (onto upper lower) =
      (given part field upper).getLast?.or (field? part field lower) := by
  induction upper generalizing lower with
  | nil => rfl
  | cons f fs ih =>
      have hrest : LeavesRoom part field fs := fun g hg => h g (List.mem_cons_of_mem f hg)
      have hstep := field?_putAt (h f (List.mem_cons_self ..)) lower
      have hgiven : given part field (f :: fs) = givenBy part field f ++ given part field fs := rfl
      rw [hgiven, or_getLast?_append, ← hstep, ← ih hrest]
      rfl

end Layer

end SecretResolver
