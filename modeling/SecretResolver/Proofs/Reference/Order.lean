/-
**The order of parameters.**

References are compared without regard to the order of their parameters.  As no name comes twice, that
is to say that the parameters of one are a permutation of those of the other, and so it is an
equivalence.

Main results:

* `Table.sameAs_iff_perm` — tables with the same entries;
* `UserRef.sameAs_iff` — **which references are the same**;
* `UserRef.sameAs_refl`, `UserRef.sameAs_symm`, `UserRef.sameAs_trans` — an equivalence.
-/

import Mathlib.Data.List.Perm.Subperm
import SecretResolver.Reference.User

set_option relaxedAutoImplicit false
set_option autoImplicit false

namespace SecretResolver

/-- Two tables have the same entries just when those of one are a permutation of those of the other. -/
theorem Table.sameAs_iff_perm {β : Type} [DecidableEq β] {s t : Table β} :
    s.sameAs t = true ↔ s.entries.Perm t.entries := by
  refine ⟨fun h => ?_, sameAs_of_perm⟩
  simp only [sameAs, size, Bool.and_eq_true, beq_iff_eq, List.all_eq_true, decide_eq_true_eq] at h
  obtain ⟨hsize, hall⟩ := h
  have hnodup : s.entries.Nodup :=
    (List.pairwise_map.1 s.distinct).imp fun hne heq => hne (congrArg Prod.fst heq)
  have hsub : s.entries ⊆ t.entries := fun e he => mem_entries_iff.2 (hall e he)
  exact (List.subperm_of_subset hnodup hsub).perm_of_length_le (by omega)

namespace UserRef

variable {r s t : UserRef}

/-- **Which references are the same**: those to one engine with the same parameters in whatever
order. -/
theorem sameAs_iff :
    r.sameAs s = true ↔ r.engine = s.engine ∧ r.parameters.entries.Perm s.parameters.entries := by
  rw [sameAs, Bool.and_eq_true, beq_iff_eq, Table.sameAs_iff_perm]

theorem sameAs_refl (r : UserRef) : r.sameAs r = true := sameAs_iff.2 ⟨rfl, .refl _⟩

theorem sameAs_symm (h : r.sameAs s = true) : s.sameAs r = true := by
  obtain ⟨hengine, hperm⟩ := sameAs_iff.1 h
  exact sameAs_iff.2 ⟨hengine.symm, hperm.symm⟩

theorem sameAs_trans (h : r.sameAs s = true) (h' : s.sameAs t = true) : r.sameAs t = true := by
  obtain ⟨hengine, hperm⟩ := sameAs_iff.1 h
  obtain ⟨hengine', hperm'⟩ := sameAs_iff.1 h'
  exact sameAs_iff.2 ⟨hengine.trans hengine', hperm.trans hperm'⟩

end UserRef

end SecretResolver
