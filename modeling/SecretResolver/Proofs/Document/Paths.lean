/-
**What a path selects.**

A path is cut at its points, and its pieces lead from a document to a node: from a mapping to the
value of a field, from a sequence to the item at an index.  A path selects a scalar exactly when
its pieces lead there.  An index is any number of digits, leading zeros included, so no index of a
sequence is out of reach as long as the sequence is no longer than a word can count.

Main definitions:

* `Document.Leads` — chains of nodes;
* `Document.Pieces` — the pieces of a path;
* `Document.Fits` — documents whose sequences can be counted in a word;
* `Document.PathsExact` — what holds of all paths into a document.

Main results:

* `Document.walk_eq_ok_iff` — walking along some segments is following a chain;
* `Document.pathsExact` — **a path selects exactly what its pieces lead to**.
-/

import SecretResolver.Document.Basic
import SecretResolver.Proofs.Text.Decimal

set_option relaxedAutoImplicit false
set_option autoImplicit false

namespace SecretResolver

namespace Document

/-! ### Indexes -/

/-- An index is read as long as it fits a word. -/
theorem index?_eq_some_iff {cs : List Char} {i : Nat} :
    index? cs = some i ↔ Text.IsNumeral (String.ofList cs) i ∧ i ≤ maxIndex := by
  rw [index?, Option.filter_eq_some_iff, Text.readNat_eq_some_iff, decide_eq_true_eq]

/-! ### Chains of nodes -/

/-- Pieces lead from a node to another one. -/
inductive Leads : Document → List String → Document → Prop
  | here (d : Document) : Leads d [] d
  | field {fields : List (String × Document)} {name : String} {d e : Document}
      {pieces : List String} (hname : Entries.find? name fields = some d)
      (h : Leads d pieces e) : Leads (.mapping fields) (name :: pieces) e
  | item {items : List Document} {piece : String} {i : Nat} {d e : Document}
      {pieces : List String} (hindex : Text.IsNumeral piece i) (hitem : items[i]? = some d)
      (h : Leads d pieces e) : Leads (.sequence items) (piece :: pieces) e

theorem Leads.append {d e f : Document} {pieces more : List String} (h : Leads d pieces e)
    (h' : Leads e more f) : Leads d (pieces ++ more) f := by
  induction h with
  | here d => exact h'
  | field hname _ ih => exact .field hname (ih h')
  | item hindex hitem _ ih => exact .item hindex hitem (ih h')

/-- A chain is cut in two wherever its pieces are. -/
theorem Leads.of_append {d f : Document} {pieces more : List String}
    (h : Leads d (pieces ++ more) f) : ∃ e, Leads d pieces e ∧ Leads e more f := by
  induction pieces generalizing d with
  | nil => exact ⟨d, .here d, h⟩
  | cons piece pieces ih =>
      cases h with
      | field hname h =>
          obtain ⟨e, hd, he⟩ := ih h
          exact ⟨e, .field hname hd, he⟩
      | item hindex hitem h =>
          obtain ⟨e, hd, he⟩ := ih h
          exact ⟨e, .item hindex hitem hd, he⟩

/-- Pieces lead to one node at most. -/
theorem Leads.unique {d e f : Document} {pieces : List String} (he : Leads d pieces e)
    (hf : Leads d pieces f) : e = f := by
  induction he with
  | here d =>
      cases hf
      rfl
  | field hname _ ih =>
      cases hf with
      | field hname' hf =>
          rw [hname, Option.some.injEq] at hname'
          subst hname'
          exact ih hf
  | item hindex hitem _ ih =>
      cases hf with
      | item hindex' hitem' hf =>
          rw [← hindex.unique hindex', hitem, Option.some.injEq] at hitem'
          subst hitem'
          exact ih hf

/-! ### The size of sequences -/

mutual

/-- No sequence of a document has more items than a word can count. -/
def Fits : Document → Prop
  | .scalar _ => True
  | .mapping fields => FieldsFit fields
  | .sequence items => items.length ≤ maxIndex + 1 ∧ ItemsFit items
  | .null => True

/-- The values of some fields fit. -/
def FieldsFit : List (String × Document) → Prop
  | [] => True
  | (_, d) :: fields => Fits d ∧ FieldsFit fields

/-- Some items fit. -/
def ItemsFit : List Document → Prop
  | [] => True
  | d :: items => Fits d ∧ ItemsFit items

end

theorem FieldsFit.find? {fields : List (String × Document)} (h : FieldsFit fields) {name : String}
    {d : Document} (hname : Entries.find? name fields = some d) : Fits d := by
  induction fields with
  | nil => exact nomatch hname
  | cons f fields ih =>
      rw [Entries.find?_cons] at hname
      split at hname
      · rw [← Option.some.inj hname]
        exact h.1
      · exact ih h.2 hname

theorem ItemsFit.getElem? {items : List Document} (h : ItemsFit items) {i : Nat} {d : Document}
    (hitem : items[i]? = some d) : Fits d := by
  induction items generalizing i with
  | nil => exact nomatch hitem
  | cons e items ih =>
      cases i with
      | zero =>
          rw [← Option.some.inj hitem]
          exact h.1
      | succ i => exact ih h.2 hitem

/-! ### Walking -/

/-- One segment selects what its piece leads to. -/
theorem select_eq_ok_iff {path : String} {d e : Document} (hd : d.Fits) {segment : List Char} :
    d.select path segment = .ok e ↔ Leads d [String.ofList segment] e := by
  cases d with
  | scalar text => exact ⟨fun h => (nomatch h), fun h => (nomatch h)⟩
  | null => exact ⟨fun h => (nomatch h), fun h => (nomatch h)⟩
  | mapping fields =>
      simp only [select]
      constructor
      · intro h
        split at h
        · rename_i d hfind
          rw [← Except.ok.inj h]
          exact .field hfind (.here d)
        · cases h
      · rintro (_ | ⟨hname, _ | _⟩)
        rw [hname]
  | sequence items =>
      simp only [select]
      constructor
      · intro h
        split at h
        · cases h
        · rename_i i hindex
          split at h
          · rename_i d hitem
            rw [← Except.ok.inj h]
            exact .item (index?_eq_some_iff.1 hindex).1 hitem (.here d)
          · cases h
      · rintro (_ | _ | ⟨hindex, hitem, _ | _⟩)
        rename_i i
        have hlt : i < items.length := (List.getElem?_eq_some_iff.1 hitem).1
        have hle : i ≤ maxIndex := Nat.le_of_lt_succ (Nat.lt_of_lt_of_le hlt hd.1)
        simp only [index?_eq_some_iff.2 ⟨hindex, hle⟩, hitem]

theorem Leads.fits {d e : Document} {pieces : List String} (h : Leads d pieces e) (hd : d.Fits) :
    e.Fits := by
  induction h with
  | here d => exact hd
  | field hname _ ih => exact ih (FieldsFit.find? hd hname)
  | item _ hitem _ ih => exact ih (ItemsFit.getElem? hd.2 hitem)

/-- **Walking along some segments is following a chain.** -/
theorem walk_eq_ok_iff {path : String} {d e : Document} (hd : d.Fits)
    {segments : List (List Char)} :
    walk path d segments = .ok e ↔ Leads d (segments.map String.ofList) e := by
  induction segments generalizing d with
  | nil =>
      constructor
      · intro h
        rw [← Except.ok.inj h]
        exact .here d
      · rintro ⟨⟩
        rfl
  | cons segment segments ih =>
      rw [walk, List.map_cons]
      constructor
      · intro h
        cases hselect : d.select path segment with
        | error cause =>
            rw [hselect] at h
            exact nomatch h
        | ok d' =>
            rw [hselect] at h
            have hstep := (select_eq_ok_iff hd).1 hselect
            exact hstep.append ((ih (hstep.fits hd)).1 h)
      · intro h
        have hcut : Leads d ([String.ofList segment] ++ segments.map String.ofList) e := h
        obtain ⟨d', hstep, hrest⟩ := hcut.of_append
        rw [(select_eq_ok_iff hd).2 hstep]
        exact (ih (hstep.fits hd)).2 hrest

/-! ### Paths -/

/-- The pieces of a path: there is at least one, none holds a point, and with points between them
they are the path. -/
structure Pieces (path : String) (pieces : List String) : Prop where
  nonempty : pieces ≠ []
  pointless : ∀ piece ∈ pieces, '.' ∉ piece.toList
  joined : path = ".".intercalate pieces

theorem toList_joined (pieces : List String) :
    (".".intercalate pieces).toList = Text.joinWith '.' (pieces.map String.toList) := by
  rw [String.toList_intercalate, Text.joinWith_eq_intercalate]
  rfl

/-- A path has the pieces at which it is cut, and no other ones. -/
theorem pieces_iff {path : String} {pieces : List String} :
    Pieces path pieces ↔ (Text.splitAll '.' path.toList).map String.ofList = pieces := by
  have hmap : (Text.splitAll '.' path.toList).map String.ofList = pieces ↔
      Text.splitAll '.' path.toList = pieces.map String.toList := by
    constructor
    · rintro rfl
      simp
    · intro h
      rw [h]
      simp
  rw [hmap, Text.splitAll_eq_iff]
  constructor
  · rintro ⟨hne, hpoint, hjoined⟩
    refine ⟨by simpa using hne, by simpa using hpoint, ?_⟩
    rw [hjoined, toList_joined]
  · rintro ⟨hne, hpoint, hjoined⟩
    refine ⟨by simpa using hne, by simpa using hpoint, ?_⟩
    rw [← String.toList_inj, toList_joined, hjoined]

theorem extract_eq_ok_iff {path v : String} {d : Document} {pieces : List String} (hd : d.Fits)
    (hpieces : Pieces path pieces) : d.extract path = .ok v ↔ Leads d pieces (.scalar v) := by
  have hwalk : walk path d (Text.splitAll '.' path.toList) = .ok (.scalar v) ↔
      Leads d ((Text.splitAll '.' path.toList).map String.ofList) (.scalar v) := walk_eq_ok_iff hd
  rw [← pieces_iff.1 hpieces, ← hwalk, extract]
  constructor
  · intro h
    split at h
    · exact nomatch h
    · rename_i text hwalk
      rw [← Except.ok.inj h]
      exact hwalk
    · exact nomatch h
  · intro h
    rw [h]

/-! ### All paths -/

/-- A path that selects nothing: extraction ends in the cause of a failed decryption. -/
def Refuses (d : Document) (path : String) : Prop :=
  ∃ cause : DecryptionCause, d.extract path = .error cause

/-- What holds of all paths into a document. -/
structure PathsExact (d : Document) : Prop where
  /-- A path selects the scalar that its pieces lead to. -/
  selects : ∀ path v, d.extract path = .ok v ↔
    ∃ pieces, Pieces path pieces ∧ Leads d pieces (.scalar v)
  /-- Every other path is refused. -/
  refuses : ∀ path, (¬ ∃ v pieces, Pieces path pieces ∧ Leads d pieces (.scalar v)) →
    d.Refuses path
  /-- Where pieces without points lead to a scalar, the path that they make selects it. -/
  joins : ∀ pieces v, pieces ≠ [] → (∀ piece ∈ pieces, '.' ∉ piece.toList) →
    Leads d pieces (.scalar v) → d.extract (".".intercalate pieces) = .ok v
  /-- No path selects a scalar when a longer one does. -/
  noneBefore : ∀ path more v, d.extract (path ++ "." ++ more) = .ok v → d.Refuses path
  /-- No path goes on from a scalar, and none from a null. -/
  noneThrough : ∀ path pieces piece more e, Pieces path (pieces ++ piece :: more) →
    Leads d pieces e → e.kind = .scalar ∨ e.kind = .null → d.Refuses path
  /-- No path goes on from a sequence by what is no index in it. -/
  noneBeside : ∀ path pieces piece more items, Pieces path (pieces ++ piece :: more) →
    Leads d pieces (.sequence items) → (∀ i, Text.IsNumeral piece i → items.length ≤ i) → d.Refuses path

theorem exists_pieces (path : String) : ∃ pieces, Pieces path pieces := ⟨_, pieces_iff.2 rfl⟩

/-- Two paths with a point between them have the pieces of both. -/
theorem Pieces.append {path more : String} {pieces pieces' : List String} (h : Pieces path pieces)
    (h' : Pieces more pieces') : Pieces (path ++ "." ++ more) (pieces ++ pieces') := by
  have htext : (path ++ "." ++ more).toList = path.toList ++ '.' :: more.toList := by
    rw [String.toList_append, String.toList_append, List.append_assoc]
    rfl
  rw [pieces_iff, htext, Text.splitAll_append_cons, List.map_append, pieces_iff.1 h,
    pieces_iff.1 h']

theorem refuses_of_not_leads {d : Document} (hd : d.Fits) {path : String} {pieces : List String}
    (hpieces : Pieces path pieces) (h : ∀ v, ¬ Leads d pieces (.scalar v)) : d.Refuses path := by
  cases htext : d.extract path with
  | error cause => exact ⟨cause, htext⟩
  | ok v => exact absurd ((extract_eq_ok_iff hd hpieces).1 htext) (h v)

/-- From a scalar nothing leads on. -/
theorem Leads.of_scalar {v : String} {pieces : List String} {e : Document}
    (h : Leads (.scalar v) pieces e) : pieces = [] := by
  cases h
  rfl

/-- **A path selects exactly what its pieces lead to.** -/
theorem pathsExact {d : Document} (hd : d.Fits) : d.PathsExact where
  selects path v := by
    constructor
    · intro h
      obtain ⟨pieces, hpieces⟩ := exists_pieces path
      exact ⟨pieces, hpieces, (extract_eq_ok_iff hd hpieces).1 h⟩
    · rintro ⟨pieces, hpieces, h⟩
      exact (extract_eq_ok_iff hd hpieces).2 h
  refuses path h := by
    obtain ⟨pieces, hpieces⟩ := exists_pieces path
    exact refuses_of_not_leads hd hpieces fun v hv => h ⟨v, pieces, hpieces, hv⟩
  joins pieces v hne hpoint h := (extract_eq_ok_iff hd ⟨hne, hpoint, rfl⟩).2 h
  noneBefore path more v h := by
    obtain ⟨pieces, hpieces⟩ := exists_pieces path
    obtain ⟨pieces', hpieces'⟩ := exists_pieces more
    obtain ⟨e, he, hrest⟩ :=
      Leads.of_append ((extract_eq_ok_iff hd (hpieces.append hpieces')).1 h)
    refine refuses_of_not_leads hd hpieces fun w hw => ?_
    rw [he.unique hw] at hrest
    exact hpieces'.nonempty hrest.of_scalar
  noneThrough path pieces piece more e hpieces he hkind := by
    refine refuses_of_not_leads hd hpieces fun v hv => ?_
    obtain ⟨e', he', hrest⟩ := Leads.of_append hv
    rw [← he.unique he'] at hrest
    cases hrest with
    | field => simp [kind] at hkind
    | item => simp [kind] at hkind
  noneBeside path pieces piece more items hpieces hitems hindex := by
    refine refuses_of_not_leads hd hpieces fun v hv => ?_
    obtain ⟨e, he, hrest⟩ := Leads.of_append hv
    rw [← hitems.unique he] at hrest
    cases hrest with
    | item hpiece hitem =>
        have hlt := (List.getElem?_eq_some_iff.1 hitem).1
        exact absurd hlt (Nat.not_lt.2 (hindex _ hpiece))

/-- A sequence under a name, and in it a mapping with a field without a name. -/
def sheet : Document :=
  .mapping [("a", .sequence [.scalar "x", .mapping [("", .scalar "y"), ("0", .null)]]),
    ("1", .scalar "z")]

theorem pathsExact_leadingZeros :
    sheet.Fits ∧ sheet.extract "a.001." = .ok "y" ∧ sheet.Refuses "a.001" ∧
      sheet.Refuses "a.-1" := by
  have hfits : sheet.Fits := by simp [sheet, Fits, FieldsFit, ItemsFit, maxIndex]
  have hindex : Text.IsNumeral "001" 1 := by decide
  have hleads : Leads sheet ["a", "001", ""] (.scalar "y") :=
    .field rfl (.item hindex rfl (.field rfl (.here _)))
  have hextract : sheet.extract "a.001." = .ok "y" :=
    (pathsExact hfits).joins ["a", "001", ""] "y" (by simp) (by decide) hleads
  have hpieces : Pieces "a.-1" (["a"] ++ "-1" :: []) := ⟨by simp, by decide, rfl⟩
  refine ⟨hfits, hextract, (pathsExact hfits).noneBefore "a.001" "" "y" hextract,
    (pathsExact hfits).noneBeside _ _ _ _ _ hpieces (.field rfl (.here _)) ?_⟩
  intro i hi
  exact absurd (hi.digits '-' (by decide)) (by decide)

end Document

end SecretResolver
