/-
**Texts that differ in the order of their parameters.**

Two texts that are read as references are read as the same reference just when they name the same
engine and the segments of one are a permutation of those of the other.  A reference is hashed with its
parameters sorted, so references that are the same have the same identity, and no others have.

Main definitions:

* `UserRef.segmentsOf`, `EncryptedRef.segmentsOf` — the segments of a text;
* `UserRef.hashed` — what a hasher is fed with.

Main results:

* `UserRef.sameAs_iff_segmentsOf`, `EncryptedRef.sameAs_iff_segmentsOf` — **texts of the same
  reference**;
* `UserRef.identity_eq_iff` — **references are the same just when they have one identity**;
* `UserRef.hashed_eq_identity` — the identity is what a hasher is fed with.
-/

import Mathlib.Data.List.Nodup
import SecretResolver.Proofs.Reference.Encrypted
import SecretResolver.Proofs.Reference.Order
import SecretResolver.Proofs.Reference.User
import SecretResolver.Proofs.Text.Order

set_option relaxedAutoImplicit false
set_option autoImplicit false

namespace SecretResolver

/-! ### Tables in another order -/

namespace Table

variable {β : Type} {s t : Table β}

/-- The order of the entries makes no difference to what is found. -/
theorem get?_eq_of_perm (h : s.entries.Perm t.entries) (k : String) : s.get? k = t.get? k := by
  refine Option.ext fun v => ?_
  rw [← mem_entries_iff, ← mem_entries_iff, h.mem_iff]

/-- An entry that is taken out is taken out of either. -/
theorem erase_perm (h : s.entries.Perm t.entries) (k : String) :
    (s.erase k).entries.Perm (t.erase k).entries := h.filter _

end Table

namespace Parameters

variable {g : Grammar} {s t : Table String}

/-- Reading the segments of a table one by one brings its entries back. -/
theorem map_segment_write (hd : Text.isAlphanumeric g.delimiter = false)
    (h : ∀ e ∈ t.entries, Legal g e) : (write g t).map (segment g) = t.entries.map .ok := by
  rw [write, List.map_map, List.map_inj_left]
  intro e he
  exact (segment_eq_ok_iff hd).2 ⟨rfl, h e he⟩

/-- The segments of one table are a permutation of those of another just when its entries are. -/
theorem write_perm_iff (hd : Text.isAlphanumeric g.delimiter = false)
    (hs : ∀ e ∈ s.entries, Legal g e) (ht : ∀ e ∈ t.entries, Legal g e) :
    (write g s).Perm (write g t) ↔ s.entries.Perm t.entries := by
  refine ⟨fun h => ?_, fun h => h.map _⟩
  have hread := h.map (segment g)
  rw [map_segment_write hd hs, map_segment_write hd ht] at hread
  exact (List.map_perm_map_iff fun _ _ => Except.ok.inj).1 hread

end Parameters

/-! ### User secret references -/

namespace UserRef

variable {r r' : UserRef}

/-- The segments of a text: what stands between separators after the first question mark. -/
def segmentsOf (text : String) : List (List Char) :=
  match Text.splitFirst '?' text.toList with
  | none => []
  | some (_, query) => Text.splitAll '&' query

/-- The segments of a text are those of the reference that it is read as. -/
theorem segmentsOf_eq {text : String} (h : parse text = .ok r) :
    segmentsOf text = Parameters.write grammar r.parameters := by
  obtain ⟨rfl, hvalid⟩ := parse_eq_ok_iff.1 h
  have hsplit : Text.splitFirst '?' r.text.toList = some (secretScheme.toList ++ r.engine.toList,
      Text.joinWith '&' (Parameters.write grammar r.parameters)) := by
    rw [Text.splitFirst_eq_some_iff, toList_text, query_eq hvalid.parameters, List.append_assoc]
    refine ⟨rfl, fun hm => ?_⟩
    rcases List.mem_append.1 hm with hm | hm
    · exact absurd hm (by decide)
    · exact not_mem_of_isEngine hvalid.engine hm
  have hne : Parameters.write grammar r.parameters ≠ [] :=
    fun hnil => hvalid.parameters (List.map_eq_nil_iff.1 hnil)
  rw [segmentsOf, hsplit]
  exact Text.splitAll_joinWith hne hvalid.not_mem_segments

/-- **Texts of the same reference**: they name the same engine, and the segments of one are a
permutation of those of the other. -/
theorem sameAs_iff_segmentsOf {a b : String} (ha : parse a = .ok r) (hb : parse b = .ok r') :
    r.sameAs r' = true ↔ r.engine = r'.engine ∧ (segmentsOf a).Perm (segmentsOf b) := by
  rw [sameAs_iff, segmentsOf_eq ha, segmentsOf_eq hb]
  have hlegal := (parse_eq_ok_iff.1 ha).2.legal
  have hlegal' := (parse_eq_ok_iff.1 hb).2.legal
  rw [Parameters.write_perm_iff isAlphanumeric_delimiter hlegal hlegal']

/-- The order of the parameters makes no difference to what is found. -/
theorem get?_eq_of_sameAs (h : r.sameAs r' = true) (name : String) : r.get? name = r'.get? name :=
  Table.get?_eq_of_perm (sameAs_iff.1 h).2 name

/-! ### Identities -/

/-- The names of some entries are in order. -/
def Ascending (es : List (String × String)) : Prop := es.Pairwise fun a b => a.1 ≤ b.1

theorem ascending_mergeSort (es : List (String × String)) :
    Ascending (es.mergeSort fun a b => decide (a.1 ≤ b.1)) :=
  Text.pairwise_mergeSort Prod.fst es

/-- Entries with distinct names are in order in one way only. -/
theorem eq_of_ascending {es fs : List (String × String)} (hd : (Entries.names es).Nodup)
    (h : es.Perm fs) (hes : Ascending es) (hfs : Ascending fs) : es = fs := by
  refine h.eq_of_pairwise (fun a b ha hb hab hba => ?_) hes hfs
  exact List.inj_on_of_nodup_map hd ha (h.mem_iff.2 hb) (String.le_antisymm hab hba)

/-- **References are the same just when they have one identity.** -/
theorem identity_eq_iff : r.identity = r'.identity ↔ r.sameAs r' = true := by
  have hperm : ∀ s : UserRef, s.identity.parameters.Perm s.parameters.entries :=
    fun s => List.mergeSort_perm _ _
  rw [sameAs_iff]
  constructor
  · intro h
    refine ⟨congrArg Identity.engine h, ?_⟩
    exact (hperm r).symm.trans (h ▸ hperm r')
  · rintro ⟨hengine, h⟩
    have hd : (Entries.names r.identity.parameters).Nodup :=
      ((hperm r).map Prod.fst).nodup_iff.2 r.parameters.distinct
    have hparameters := eq_of_ascending hd ((hperm r).trans (h.trans (hperm r').symm))
      (ascending_mergeSort _) (ascending_mergeSort _)
    rw [identity, identity, Identity.mk.injEq]
    exact ⟨hengine, hparameters⟩

/-- Pairs are in order if their names are, and where names are equal their values. -/
def inOrder (a b : String × String) : Bool := decide (a.1 < b.1 ∨ a.1 = b.1 ∧ a.2 ≤ b.2)

/-- What a hasher is fed with: the engine, and the parameters sorted as pairs. -/
def hashed (r : UserRef) : String × List (String × String) :=
  (r.engine, r.parameters.entries.mergeSort inOrder)

theorem inOrder_trans {a b c : String × String} (hab : inOrder a b = true)
    (hbc : inOrder b c = true) : inOrder a c = true := by
  simp only [inOrder, decide_eq_true_eq] at hab hbc ⊢
  rcases hab with hab | ⟨hab, hab'⟩
  · rcases hbc with hbc | ⟨hbc, -⟩
    · exact .inl (String.lt_trans hab hbc)
    · exact .inl (hbc ▸ hab)
  · rcases hbc with hbc | ⟨hbc, hbc'⟩
    · exact .inl (hab ▸ hbc)
    · exact .inr ⟨hab.trans hbc, String.le_trans hab' hbc'⟩

theorem le_of_inOrder {a b : String × String} (h : inOrder a b = true) : a.1 ≤ b.1 := by
  simp only [inOrder, decide_eq_true_eq] at h
  rcases h with h | ⟨h, -⟩
  · exact String.not_lt.1 fun hba => String.lt_irrefl _ (String.lt_trans h hba)
  · exact h ▸ String.le_refl _

theorem inOrder_total (a b : String × String) : (inOrder a b || inOrder b a) = true := by
  simp only [inOrder, Bool.or_eq_true, decide_eq_true_eq]
  by_cases hab : a.1 ≤ b.1
  · by_cases hba : b.1 ≤ a.1
    · have heq := String.le_antisymm hab hba
      rcases String.le_total a.2 b.2 with h | h
      · exact .inl (.inr ⟨heq, h⟩)
      · exact .inr (.inr ⟨heq.symm, h⟩)
    · exact .inl (.inl (String.not_le.1 hba))
  · exact .inr (.inl (String.not_le.1 hab))

/-- As no name comes twice, **the identity is what a hasher is fed with**. -/
theorem hashed_eq_identity (r : UserRef) :
    r.hashed = (r.identity.engine, r.identity.parameters) := by
  have hperm : (r.parameters.entries.mergeSort inOrder).Perm r.parameters.entries :=
    List.mergeSort_perm _ _
  have hsorted : Ascending (r.parameters.entries.mergeSort inOrder) := by
    have hpairs := @List.pairwise_mergeSort _ inOrder (fun _ _ _ => inOrder_trans) inOrder_total
      r.parameters.entries
    exact hpairs.imp le_of_inOrder
  have hd : (Entries.names (r.parameters.entries.mergeSort inOrder)).Nodup :=
    (hperm.map Prod.fst).nodup_iff.2 r.parameters.distinct
  rw [hashed, eq_of_ascending hd (hperm.trans (List.mergeSort_perm _ _).symm) hsorted
    (ascending_mergeSort _)]
  rfl

theorem hashed_eq_iff : r.hashed = r'.hashed ↔ r.sameAs r' = true := by
  rw [← identity_eq_iff, hashed_eq_identity, hashed_eq_identity, Prod.mk.injEq]
  cases r.identity
  cases r'.identity
  rw [Identity.mk.injEq]

end UserRef

/-! ### Encrypted references -/

namespace EncryptedRef

variable {r r' : EncryptedRef}

/-- The segments of a text: what stands between separators after the first of these. -/
def segmentsOf (text : String) : List (List Char) := (Text.splitAll '!' text.toList).tail

/-- The segments of a text are those of the reference that it is read as. -/
theorem segmentsOf_eq {text : String} (h : parse text = .ok r) :
    segmentsOf text = Parameters.write grammar r.parameters := by
  obtain ⟨rfl, hvalid⟩ := parse_eq_ok_iff.1 h
  have hscheme : '!' ∉ encryptedScheme.toList := by decide
  have hsplit := Text.splitAll_append_left hscheme (segments_eq hvalid (toList_text r))
  rw [segmentsOf, toList_text, hsplit, List.tail_cons]

/-- **Texts of the same reference**: they name the same engine, and the segments of one are a
permutation of those of the other. -/
theorem sameAs_iff_segmentsOf {a b : String} (ha : parse a = .ok r) (hb : parse b = .ok r') :
    r.sameAs r' = true ↔ r.engine = r'.engine ∧ (segmentsOf a).Perm (segmentsOf b) := by
  rw [sameAs, Bool.and_eq_true, beq_iff_eq, Table.sameAs_iff_perm, segmentsOf_eq ha,
    segmentsOf_eq hb]
  have hlegal := (parse_eq_ok_iff.1 ha).2.legal
  have hlegal' := (parse_eq_ok_iff.1 hb).2.legal
  rw [Parameters.write_perm_iff isAlphanumeric_delimiter hlegal hlegal']

/-- The order of the parameters makes no difference to what is found. -/
theorem get?_eq_of_sameAs (h : r.sameAs r' = true) (name : String) :
    r.get? name = r'.get? name := by
  rw [sameAs, Bool.and_eq_true, Table.sameAs_iff_perm] at h
  exact Table.get?_eq_of_perm h.2 name

end EncryptedRef

end SecretResolver
