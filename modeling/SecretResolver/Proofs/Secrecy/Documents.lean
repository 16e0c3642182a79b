/-
**Failures do not depend on the texts of a document.**

Two documents have the same shape if they differ in the texts of their scalars only.  Along any path
they are alike up to the end, and where the walk fails in one it fails in the other, with the same
cause: a cause is put together from the path, from names of fields, from numbers of items and from
kinds of node, all of which the shape tells.  So it is with payloads that are made of documents, and
with what is taken out of payloads that have the same fields.

Main definitions:

* `AlikeResults`, `SameFailure` — the same failure, or two values that are related;
* `Entries.Related` — entries with the same names in the same order, and related values;
* `Document.SameShape`, `Payload.SameFields`;
* `VaultSecret.Alike` — secrets of a vault that differ in their texts only.

Main results:

* `Document.SameShape.extract` — **a path fails in both documents or in none, and for one cause**;
* `Document.SameShape.namedTexts`, `Document.SameShape.singleText` — so do documents as payloads;
* `Payload.SameFields.fieldOf`, `Payload.SameFields.fieldFault` — so do the fields of payloads;
* `VaultSecret.Alike.open_` — so does the decoding of a secret.
-/

import Mathlib.Data.List.Forall2
import SecretResolver.Resolver.Resolve

set_option relaxedAutoImplicit false
set_option autoImplicit false

namespace SecretResolver

universe u v w

/-! ### Results -/

section

variable {ε : Type w} {α β : Type u}

/-- Two results are the same failure, or two values that are related. -/
inductive AlikeResults (R : α → β → Prop) : Except ε α → Except ε β → Prop
  | ok {a : α} {b : β} (h : R a b) : AlikeResults R (.ok a) (.ok b)
  | error (e : ε) : AlikeResults R (.error e) (.error e)

/-- Two results are the same failure, or none is a failure. -/
abbrev SameFailure : Except ε α → Except ε β → Prop := AlikeResults fun _ _ => True

namespace AlikeResults

variable {R S : α → β → Prop} {x : Except ε α} {y : Except ε β}

theorem ok_or_error (h : AlikeResults R x y) :
    (∃ a b, x = .ok a ∧ y = .ok b ∧ R a b) ∨ ∃ e, x = .error e ∧ y = .error e := by
  cases h with
  | @ok a b h => exact .inl ⟨a, b, rfl, rfl, h⟩
  | error e => exact .inr ⟨e, rfl, rfl⟩

theorem mono (h : AlikeResults R x y) (hrs : ∀ a b, R a b → S a b) : AlikeResults S x y := by
  cases h with
  | ok h => exact .ok (hrs _ _ h)
  | error e => exact .error e

theorem refl {R : α → α → Prop} (hr : ∀ a, R a a) (x : Except ε α) : AlikeResults R x x := by
  cases x with
  | ok a => exact .ok (hr a)
  | error e => exact .error e

theorem sameFailure (h : AlikeResults R x y) : SameFailure x y := h.mono fun _ _ _ => trivial

end AlikeResults

/-- Two values are both there, or none is. -/
theorem none_or_some_of_isSome_eq {x : Option α} {y : Option β} (h : x.isSome = y.isSome) :
    (x = none ∧ y = none) ∨ ∃ a b, x = some a ∧ y = some b := by
  cases x with
  | none =>
      cases y with
      | none => exact .inl ⟨rfl, rfl⟩
      | some b => cases h
  | some a =>
      cases y with
      | none => cases h
      | some b => exact .inr ⟨a, b, rfl, rfl⟩

end

/-! ### Entries -/

namespace Entries

variable {κ : Type u} {β : Type v} {γ : Type w}

/-- The same names in the same order, and related values. -/
def Related (R : β → γ → Prop) : List (κ × β) → List (κ × γ) → Prop :=
  List.Forall₂ fun e f => e.1 = f.1 ∧ R e.2 f.2

variable {R : β → γ → Prop} {es : List (κ × β)} {fs : List (κ × γ)}

theorem Related.names_eq (h : Related R es fs) : names es = names fs := by
  induction h with
  | nil => rfl
  | cons h _ ih => rw [names_cons, names_cons, h.1, ih]

theorem related_of_forall₂ {es : List (κ × β)} {fs : List (κ × γ)} (hnames : names es = names fs)
    (h : List.Forall₂ R (es.map Prod.snd) (fs.map Prod.snd)) : Related R es fs := by
  induction es generalizing fs with
  | nil =>
      cases fs with
      | nil => exact .nil
      | cons f fs => cases hnames
  | cons e es ih =>
      cases fs with
      | nil => cases hnames
      | cons f fs =>
          obtain ⟨hname, hrest⟩ := List.cons.inj hnames
          obtain ⟨hvalue, hvalues⟩ := List.forall₂_cons.1 h
          exact .cons ⟨hname, hvalue⟩ (ih hrest hvalues)

theorem Related.refl {R : β → β → Prop} (hr : ∀ v, R v v) (es : List (κ × β)) : Related R es es :=
  List.forall₂_same.2 fun e _ => ⟨rfl, hr e.2⟩

/-- A name has a value in both lists or in none, and the values are related. -/
theorem Related.find?_cases [DecidableEq κ] (h : Related R es fs) (k : κ) :
    (find? k es = none ∧ find? k fs = none) ∨
      ∃ v w, find? k es = some v ∧ find? k fs = some w ∧ R v w := by
  induction h with
  | nil => exact .inl ⟨rfl, rfl⟩
  | @cons e f _ _ h _ ih =>
      rw [find?_cons, find?_cons, ← h.1]
      split
      · exact .inr ⟨e.2, f.2, rfl, rfl, h.2⟩
      · exact ih

/-- The names that are gathered are decided by the names that there are. -/
theorem names_gather_congr [DecidableEq κ] {es : List (κ × β)} {fs : List (κ × γ)}
    (h : names es = names fs) : names (gather es) = names (gather fs) := by
  suffices ∀ (acc : List (κ × β)) (acc' : List (κ × γ)), names acc = names acc' →
      names (es.foldl (fun acc e => put e.1 e.2 acc) acc) =
        names (fs.foldl (fun acc e => put e.1 e.2 acc) acc') from this [] [] rfl
  induction es generalizing fs with
  | nil =>
      cases fs with
      | nil => exact fun _ _ hacc => hacc
      | cons f fs => cases h
  | cons e es ih =>
      cases fs with
      | nil => cases h
      | cons f fs =>
          obtain ⟨hname, hrest⟩ := List.cons.inj h
          intro acc acc' hacc
          exact ih hrest _ _ (by rw [names_put, names_put, hacc, hname])

end Entries

/-! ### Documents -/

namespace Document

/-- The same kinds of node, the same names of fields in the same order, and the same numbers of
items; the texts of scalars may be any. -/
inductive SameShape : Document → Document → Prop
  | scalar (s t : String) : SameShape (.scalar s) (.scalar t)
  | mapping {fs gs : List (String × Document)} (names : Entries.names fs = Entries.names gs)
      (h : List.Forall₂ SameShape (fs.map Prod.snd) (gs.map Prod.snd)) :
      SameShape (.mapping fs) (.mapping gs)
  | sequence {ds es : List Document} (h : List.Forall₂ SameShape ds es) :
      SameShape (.sequence ds) (.sequence es)
  | null : SameShape .null .null

mutual

/-- A document has its own shape. -/
theorem sameShape_self : ∀ d : Document, SameShape d d
  | .scalar s => .scalar s s
  | .mapping fs => .mapping rfl (sameShape_fields fs)
  | .sequence ds => .sequence (sameShape_items ds)
  | .null => .null

theorem sameShape_fields : ∀ fs : List (String × Document),
    List.Forall₂ SameShape (fs.map Prod.snd) (fs.map Prod.snd)
  | [] => .nil
  | (_, d) :: fs => .cons (sameShape_self d) (sameShape_fields fs)

theorem sameShape_items : ∀ ds : List Document, List.Forall₂ SameShape ds ds
  | [] => .nil
  | d :: ds => .cons (sameShape_self d) (sameShape_items ds)

end

variable {d e : Document}

namespace SameShape

/-- A segment selects documents of the same shape, or fails in both for one cause. -/
theorem select (h : SameShape d e) (path : String) (segment : List Char) :
    AlikeResults SameShape (d.select path segment) (e.select path segment) := by
  cases h with
  | scalar s t => exact .error _
  | null => exact .error _
  | mapping hnames h =>
      have hrelated := Entries.related_of_forall₂ hnames h
      rcases hrelated.find?_cases (String.ofList segment) with ⟨hf, hg⟩ | ⟨v, w, hf, hg, hvw⟩
      · simpa [Document.select, hf, hg] using .error _
      · simpa [Document.select, hf, hg] using .ok hvw
  | @sequence ds es h =>
      have hlength := h.length_eq
      unfold Document.select
      dsimp only
      split
      · exact .error _
      · rename_i i _
        rcases Nat.lt_or_ge i ds.length with hi | hi
        · have hi' : i < es.length := hlength ▸ hi
          rw [List.getElem?_eq_getElem hi, List.getElem?_eq_getElem hi']
          exact .ok (h.get hi hi')
        · rw [List.getElem?_eq_none hi, List.getElem?_eq_none (hlength ▸ hi), hlength]
          exact .error _

/-- Segments one after the other lead to documents of the same shape, or fail for one cause. -/
theorem walk (h : SameShape d e) (path : String) (segments : List (List Char)) :
    AlikeResults SameShape (Document.walk path d segments) (Document.walk path e segments) := by
  induction segments generalizing d e with
  | nil => exact .ok h
  | cons segment segments ih =>
      rcases (h.select path segment).ok_or_error with ⟨d', e', hd, he, hnext⟩ | ⟨cause, hd, he⟩
      · simpa only [Document.walk, hd, he] using ih hnext
      · simpa only [Document.walk, hd, he] using .error cause

/-- **A path fails in both documents or in none, and for one cause.** -/
theorem extract (h : SameShape d e) (path : String) :
    SameFailure (d.extract path) (e.extract path) := by
  rcases (h.walk path (Text.splitAll '.' path.toList)).ok_or_error with
    ⟨d', e', hd, he, hend⟩ | ⟨cause, hd, he⟩
  · simp only [Document.extract, hd, he]
    cases hend with
    | scalar s t => exact .ok trivial
    | mapping hnames h => exact .error _
    | sequence h => exact .error _
    | null => exact .error _
  · simpa only [Document.extract, hd, he] using .error cause

theorem fieldTexts {fs gs : List (String × Document)} (h : Entries.Related SameShape fs gs) :
    AlikeResults (fun es es' => Entries.names es = Entries.names es')
      (Document.fieldTexts fs) (Document.fieldTexts gs) := by
  induction h with
  | nil => exact .ok rfl
  | @cons f g fs gs hfield _ ih =>
      obtain ⟨name, d⟩ := f
      obtain ⟨name', e⟩ := g
      obtain ⟨hname, hshape⟩ := hfield
      obtain rfl : name = name' := hname
      cases hshape with
      | scalar s t =>
          rcases ih.ok_or_error with ⟨es, es', hf, hg, hnames⟩ | ⟨cause, hf, hg⟩
          · simpa only [Document.fieldTexts, hf, hg] using .ok (congrArg (name :: ·) hnames)
          · simpa only [Document.fieldTexts, hf, hg] using .error cause
      | mapping hnames h => exact .error _
      | sequence h => exact .error _
      | null => exact .error _

/-- **Mappings of the same shape have texts with the same names, or fail for one cause.** -/
theorem namedTexts (h : SameShape d e) :
    AlikeResults (fun s t => s.names = t.names) d.namedTexts e.namedTexts := by
  cases h with
  | scalar s t => exact .error _
  | null => exact .error _
  | sequence h => exact .error _
  | mapping hnames h =>
      have hrelated := Entries.related_of_forall₂ hnames h
      rcases (fieldTexts hrelated).ok_or_error with ⟨es, es', hf, hg, hnames⟩ | ⟨cause, hf, hg⟩
      · simpa only [Document.namedTexts, hf, hg] using .ok (Entries.names_gather_congr hnames)
      · simpa only [Document.namedTexts, hf, hg] using .error cause

theorem singleText (h : SameShape d e) : SameFailure d.singleText e.singleText := by
  cases h with
  | scalar s t => exact .ok trivial
  | mapping hnames h => exact .error _
  | sequence h => exact .error _
  | null => exact .error _

end SameShape

end Document

/-! ### Payloads -/

namespace Payload

/-- The same kind of payload, with the same names of texts in whatever order. -/
def SameFields : Payload → Payload → Prop
  | .named s, .named t => ∀ name, (s.get? name).isSome = (t.get? name).isSome
  | .single _, .single _ => True
  | _, _ => False

variable {p q : Payload}

theorem sameFields_self (p : Payload) : p.SameFields p := by
  cases p with
  | named values => exact fun _ => rfl
  | single value => trivial

theorem SameFields.isSome_get? (h : SameFields p q) (name : String) :
    (p.get? name).isSome = (q.get? name).isSome := by
  cases p with
  | named s =>
      cases q with
      | named t => exact h name
      | single t => exact h.elim
  | single s =>
      cases q with
      | named t => exact h.elim
      | single t => rfl

/-- **A reference names a field in both user secrets, or fails on both with one failure.** -/
theorem SameFields.fieldOf {u u' : UserSecret} (h : SameFields u.payload u'.payload)
    (r : UserRef) : SameFailure (Resolver.fieldOf r u) (Resolver.fieldOf r u') := by
  rcases none_or_some_of_isSome_eq (h.isSome_get? (r.field?.getD "")) with
    ⟨hu, hu'⟩ | ⟨text, text', hu, hu'⟩
  · simpa only [Resolver.fieldOf, UserSecret.get?, hu, hu'] using .error _
  · simpa only [Resolver.fieldOf, UserSecret.get?, hu, hu'] using .ok trivial

/-- **A check finds the same wrong with both user secrets.** -/
theorem SameFields.fieldFault {u u' : UserSecret} (h : SameFields u.payload u'.payload)
    (r : UserRef) : Resolver.fieldFault r u = Resolver.fieldFault r u' := by
  unfold Resolver.fieldFault UserSecret.get?
  split
  · rfl
  · rename_i name _
    rw [h.isSome_get? name]

/-- Tables with the same names have the same fields. -/
theorem sameFields_of_names {s t : Table String} (h : s.names = t.names) :
    SameFields (.named s) (.named t) := by
  intro name
  have hnone (u : Table String) : u.get? name = none ↔ name ∉ u.names := Entries.find?_eq_none_iff
  rw [Bool.eq_iff_iff, Option.isSome_iff_ne_none, Option.isSome_iff_ne_none, ne_eq, ne_eq, hnone,
    hnone, h]

theorem ofDocument_alike {d e : Document} (h : d.SameShape e) (kind : PayloadKind) :
    AlikeResults SameFields (ofDocument d kind) (ofDocument e kind) := by
  cases kind with
  | named =>
      rcases h.namedTexts.ok_or_error with ⟨s, t, hd, he, hnames⟩ | ⟨cause, hd, he⟩
      · simpa only [ofDocument, hd, he] using .ok (sameFields_of_names hnames)
      · simpa only [ofDocument, hd, he] using .error cause
  | single =>
      rcases h.singleText.ok_or_error with ⟨s, t, hd, he, -⟩ | ⟨cause, hd, he⟩
      · simpa only [ofDocument, hd, he] using .ok trivial
      · simpa only [ofDocument, hd, he] using .error cause

/-- Bytes that are documents of the same shape in each encoding are payloads with the same fields, or
fail with one failure. -/
theorem decode_alike {bs bs' : Bytes}
    (h : ∀ encoding, AlikeResults Document.SameShape (Document.decode bs encoding)
      (Document.decode bs' encoding)) (kind encoding : String) :
    AlikeResults SameFields (decode bs kind encoding) (decode bs' kind encoding) := by
  unfold decode
  split
  · exact .error _
  · rename_i kind _
    split
    · exact .error _
    · rename_i encoding _
      rcases (h encoding).ok_or_error with ⟨d, e, hd, he, hshape⟩ | ⟨cause, hd, he⟩
      · rcases (ofDocument_alike hshape kind).ok_or_error with
          ⟨p, q, hp, hq, hfields⟩ | ⟨cause, hp, hq⟩
        · simpa only [decodeAs, hd, he, hp, hq] using .ok hfields
        · simpa only [decodeAs, hd, he, hp, hq] using .error _
      · simpa only [decodeAs, hd, he] using .error _

end Payload

/-! ### Vaults -/

namespace VaultSecret

/-- The contents of a vault's secret with the same fields: both decoded, or both to be decoded as
documents of the same shape. -/
inductive AlikeContents : Payload ⊕ Bytes → Payload ⊕ Bytes → Prop
  | opened {p q : Payload} (h : p.SameFields q) : AlikeContents (.inl p) (.inl q)
  | encoded {bs bs' : Bytes}
      (h : ∀ encoding, AlikeResults Document.SameShape (Document.decode bs encoding)
        (Document.decode bs' encoding)) : AlikeContents (.inr bs) (.inr bs')

/-- Secrets of a vault that differ in their texts only. -/
structure Alike (s t : VaultSecret) : Prop where
  description : s.description = t.description
  contents : AlikeContents s.contents t.contents
  delay : s.delay = t.delay

theorem alike_self (s : VaultSecret) : s.Alike s where
  description := rfl
  contents := by
    cases s.contents with
    | inl p => exact .opened (Payload.sameFields_self p)
    | inr bs => exact .encoded fun _ => .refl Document.sameShape_self _
  delay := rfl

/-- **Such secrets have the same fields, or fail with one failure.** -/
theorem Alike.open_ {s t : VaultSecret} (h : s.Alike t) :
    AlikeResults (fun u u' => u.payload.SameFields u'.payload) s.open_ t.open_ := by
  obtain ⟨description, contents, delay⟩ := s
  obtain ⟨description', contents', delay'⟩ := t
  obtain ⟨hdescription, hcontents, -⟩ := h
  obtain rfl : description = description' := hdescription
  cases hcontents with
  | opened h => exact .ok h
  | encoded h =>
      rcases (Payload.decode_alike h description.kind description.encoding).ok_or_error with
        ⟨p, q, hp, hq, hfields⟩ | ⟨e, hp, hq⟩
      · simpa only [VaultSecret.open_, hp, hq] using .ok hfields
      · simpa only [VaultSecret.open_, hp, hq] using .error e

end VaultSecret

end SecretResolver
