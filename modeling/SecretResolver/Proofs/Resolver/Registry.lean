/-
**Engines are registered once and for all.**

The first engine with an identifier stays the one that is found under it, whatever is registered
later.  An engine whose identifier is taken is refused, and nothing is changed by that.  So the
engines that a resolver has are told by the list of those that were to be registered, and a
reference is resolved by the first of them that has the identifier which the reference names.

Main definitions:

* `Resolver.registering` — a resolver after some engines were registered, one after the other;
* `Resolver.Took` — an engine was registered under an identifier;
* `Resolver.FirstWins` — what a list of engines leads to.

Main results:

* `Resolver.register_of_mem`, `Resolver.register_of_not_mem` — one engine;
* `Resolver.get?_registering` — **the first engine is the one that is found**;
* `Resolver.pairwise_engineIds` — identifiers are listed in the order of their bytes;
* `Resolver.registerAll_eq_ok_iff`, `Resolver.registerAll_eq_error_iff` — all or nothing;
* `Resolver.firstWins` — **all of this, whatever engines are registered**.
-/

import Mathlib.Data.List.Dedup
import SecretResolver.Proofs.Text.Order
import SecretResolver.Proofs.Text.Utf8
import SecretResolver.Resolver.Files

set_option relaxedAutoImplicit false
set_option autoImplicit false

namespace SecretResolver

namespace Resolver

variable {s : Resolver} {e : Engine} {es : List Engine} {id : String} {error : SecretError}

/-! ### One engine -/

/-- An engine whose identifier is taken is refused, and nothing is changed. -/
theorem register_of_mem (h : e.identifier ∈ s.engines.names) :
    register e s = (.error (.duplicateEngine e.identifier), s) := by
  simp only [register, Table.add?, if_pos h]

/-- An engine with a new identifier is added behind all others. -/
theorem register_of_not_mem (h : e.identifier ∉ s.engines.names) :
    (register e s).1 = .ok () ∧
      s.engines.add? e.identifier e = some (register e s).2.engines := by
  simp only [register, Table.add?, if_neg h]
  exact ⟨trivial, trivial⟩

theorem register_eq_ok_iff : (register e s).1 = .ok () ↔ e.identifier ∉ s.engines.names := by
  by_cases h : e.identifier ∈ s.engines.names
  · simp [register_of_mem h, h]
  · simp [(register_of_not_mem h).1, h]

/-- Under an identifier what was there before is found first. -/
theorem get?_register (e : Engine) (s : Resolver) (id : String) :
    (register e s).2.engines.get? id =
      (s.engines.get? id).or (if e.identifier = id then some e else none) := by
  by_cases h : e.identifier ∈ s.engines.names
  · rw [register_of_mem h]
    split
    · rename_i hid
      subst hid
      obtain ⟨e', he'⟩ := Option.isSome_iff_exists.1 (Table.mem_names_iff.1 h)
      rw [he', Option.some_or]
    · rw [Option.or_none]
  · exact Table.get?_of_add? (register_of_not_mem h).2 id

/-- A new identifier comes last. -/
theorem names_register (e : Engine) (s : Resolver) : (register e s).2.engines.names =
    if e.identifier ∈ s.engines.names then s.engines.names
    else s.engines.names ++ [e.identifier] := by
  split
  · rename_i h
    rw [register_of_mem h]
  · rename_i h
    have hentries := Table.add?_eq_some_iff.1 (register_of_not_mem h).2
    rw [Table.names, hentries, Entries.names_append]
    rfl

/-! ### Engines one after the other -/

/-- A resolver after some engines were registered, whether they were refused or not. -/
def registering (s : Resolver) (es : List Engine) : Resolver :=
  es.foldl (fun s e => (register e s).2) s

@[simp] theorem registering_nil (s : Resolver) : s.registering [] = s := rfl

theorem registering_cons (s : Resolver) (e : Engine) (es : List Engine) :
    s.registering (e :: es) = (register e s).2.registering es := rfl

/-- **The first engine is the one that is found.** -/
theorem get?_registering (s : Resolver) (es : List Engine) (id : String) :
    (s.registering es).engines.get? id =
      (s.engines.get? id).or (es.find? fun e => e.identifier = id) := by
  induction es generalizing s with
  | nil => simp
  | cons e es ih =>
      rw [registering_cons, ih, get?_register, Option.or_assoc, List.find?_cons]
      by_cases h : e.identifier = id <;> simp [h]

/-- The identifiers that are taken. -/
theorem mem_names_registering : id ∈ (s.registering es).engines.names ↔
    id ∈ s.engines.names ∨ id ∈ es.map Engine.identifier := by
  rw [Table.mem_names_iff, Table.mem_names_iff, get?_registering, Option.isSome_or, Bool.or_eq_true,
    List.find?_isSome]
  simp

/-- One of some engines was registered under an identifier: it had it, and it was not refused when
those before it had had their turn. -/
def Took (s : Resolver) (es : List Engine) (id : String) : Prop :=
  ∃ before e after, es = before ++ e :: after ∧ e.identifier = id ∧
    (register e (s.registering before)).1 = .ok ()

/-- The first engine with a new identifier is registered. -/
theorem took_iff : Took s es id ↔ id ∉ s.engines.names ∧ id ∈ es.map Engine.identifier := by
  constructor
  · rintro ⟨before, e, after, rfl, rfl, hok⟩
    rw [register_eq_ok_iff, mem_names_registering, not_or] at hok
    exact ⟨hok.1, by simp⟩
  · rintro ⟨hnew, hmem⟩
    obtain ⟨e, he⟩ : ∃ e, es.find? (fun e => e.identifier = id) = some e := by
      rw [← Option.isSome_iff_exists, List.find?_isSome]
      simpa using hmem
    obtain ⟨hid, before, after, rfl, hbefore⟩ := List.find?_eq_some_iff_append.1 he
    refine ⟨before, e, after, rfl, of_decide_eq_true hid, ?_⟩
    rw [register_eq_ok_iff, mem_names_registering, of_decide_eq_true hid, not_or]
    exact ⟨hnew, by simpa using hbefore⟩

/-! ### The identifiers -/

/-- There are as many engines as there are different identifiers. -/
theorem size_registering (h : s.engines.names = []) :
    (s.registering es).engines.size = (es.map Engine.identifier).dedup.length := by
  have hperm : (s.registering es).engines.names.Perm (es.map Engine.identifier).dedup := by
    rw [List.perm_ext_iff_of_nodup (Table.nodup_names _) (List.nodup_dedup _)]
    intro id
    rw [mem_names_registering, h, List.mem_dedup]
    simp
  rw [← hperm.length_eq]
  exact (List.length_map _).symm

/-- **Identifiers are listed in the order of their bytes**, and none of them twice. -/
theorem pairwise_engineIds (s : Resolver) :
    s.engineIds.Pairwise fun a b => Utf8.ofString a < Utf8.ofString b := by
  have hsorted : s.engineIds.Pairwise fun a b => a ≤ b :=
    Text.pairwise_mergeSort (fun id => id) s.engines.names
  have hdistinct : s.engineIds.Nodup :=
    (List.mergeSort_perm _ _).nodup_iff.2 s.engines.nodup_names
  refine hsorted.imp₂ (fun a b hle hne => ?_) hdistinct
  refine Utf8.ofString_lt_ofString (String.not_le.1 fun hba => hne ?_)
  exact String.le_antisymm hle hba

theorem mem_engineIds : id ∈ s.engineIds ↔ id ∈ s.engines.names :=
  (List.mergeSort_perm _ _).mem_iff

/-! ### All engines, or an error -/

theorem registerAll_of_mem (h : e.identifier ∈ s.engines.names) :
    registerAll (e :: es) s = (.error (.duplicateEngine e.identifier), s) := by
  simp only [registerAll, Action.bind_apply, register_of_mem h]
  rfl

theorem registerAll_of_not_mem (h : e.identifier ∉ s.engines.names) :
    registerAll (e :: es) s = registerAll es (register e s).2 := by
  simp only [registerAll, Action.bind_apply, (register_of_not_mem h).1]

/-- All of some engines are registered just when their identifiers are different from each other and
from those that are taken; then it is as if they had been registered one after the other. -/
theorem registerAll_eq_ok_iff : (registerAll es s).1 = .ok () ↔
    (s.engines.names ++ es.map Engine.identifier).Nodup := by
  induction es generalizing s with
  | nil => simpa [registerAll] using s.engines.nodup_names
  | cons e es ih =>
      by_cases h : e.identifier ∈ s.engines.names
      · rw [registerAll_of_mem h, List.nodup_append]
        refine iff_of_false (by simp) fun hnodup => ?_
        exact hnodup.2.2 _ h _ (by simp) rfl
      · rw [registerAll_of_not_mem h, ih, names_register, if_neg h, List.append_assoc]
        rfl

theorem registerAll_of_ok (h : (registerAll es s).1 = .ok ()) :
    (registerAll es s).2 = s.registering es := by
  induction es generalizing s with
  | nil => rfl
  | cons e es ih =>
      by_cases he : e.identifier ∈ s.engines.names
      · rw [registerAll_of_mem he] at h
        cases h
      · rw [registerAll_of_not_mem he] at h ⊢
        exact ih h

/-- Otherwise the first engine is named whose identifier is taken or is that of one before it. -/
theorem registerAll_eq_error_iff : (registerAll es s).1 = .error error ↔
    ∃ before e after, es = before ++ e :: after ∧
      (s.engines.names ++ before.map Engine.identifier).Nodup ∧
      e.identifier ∈ s.engines.names ++ before.map Engine.identifier ∧
      error = .duplicateEngine e.identifier := by
  induction es generalizing s with
  | nil => simp [registerAll]
  | cons e es ih =>
      by_cases h : e.identifier ∈ s.engines.names
      · rw [registerAll_of_mem h]
        constructor
        · rintro ⟨⟩
          refine ⟨[], e, es, rfl, ?_, by simpa using h, rfl⟩
          simpa using s.engines.nodup_names
        · rintro ⟨_ | ⟨e', before⟩, e'', after, heq, hnodup, -, rfl⟩
          · cases heq
            rfl
          · cases heq
            rw [List.nodup_append] at hnodup
            exact absurd rfl (hnodup.2.2 _ h _ (by simp))
      · rw [registerAll_of_not_mem h, ih, names_register, if_neg h]
        simp only [List.append_assoc, List.singleton_append, ← List.map_cons]
        constructor
        · rintro ⟨before, e', after, rfl, hrest⟩
          exact ⟨e :: before, e', after, rfl, hrest⟩
        · rintro ⟨_ | ⟨_, before⟩, e', after, heq, hnodup, hmem, herror⟩
          · cases heq
            exact absurd (by simpa using hmem) h
          · cases heq
            exact ⟨before, e', after, rfl, hnodup, hmem, herror⟩

/-! ### What references are resolved by -/

/-- A reference is resolved by the engine with its identifier, which checks it first. -/
theorem decrypt_eq (r : EncryptedRef) (s : Resolver) : decrypt r s =
    match s.engines.get? r.engine with
    | none => (.error (.noSuchEngine r.engine), s)
    | some e =>
        match e.validate r with
        | .error error => (.error error, s)
        | .ok () => decryptWith e r { s with log := .decrypting e.identifier :: s.log } := by
  simp only [decrypt, startDecrypt, engineOf, Action.bind_apply, Action.get_apply]
  cases s.engines.get? r.engine with
  | none => rfl
  | some e =>
      cases hvalid : e.validate r with
      | error _ => simp only [hvalid, Action.pure_apply, await]
      | ok _ => simp only [hvalid, Action.bind_apply, note_apply, decryptWith]

/-! ### Whatever engines are registered -/

/-- What it comes to when engines are registered one after the other, where there was none. -/
structure FirstWins (s₀ : Resolver) (es : List Engine) : Prop where
  /-- One more engine is refused just when an earlier one was registered under its identifier. -/
  refused_iff : ∀ e, (register e (s₀.registering es)).1 = .error (.duplicateEngine e.identifier) ↔
    Took s₀ es e.identifier
  /-- There is no other error, and a refusal changes nothing. -/
  refused : ∀ e error, (register e (s₀.registering es)).1 = .error error →
    register e (s₀.registering es) = (.error (.duplicateEngine e.identifier), s₀.registering es)
  /-- The first engine with an identifier is found under it. -/
  found : ∀ id, (s₀.registering es).engines.get? id = es.find? fun e => e.identifier = id
  /-- There are as many engines as there are different identifiers. -/
  size : (s₀.registering es).engines.size = (es.map Engine.identifier).dedup.length
  /-- The list of identifiers is strictly in the order of their bytes. -/
  sorted : (s₀.registering es).engineIds.Pairwise fun a b => Utf8.ofString a < Utf8.ofString b
  /-- These are the identifiers of the engines. -/
  listed : ∀ id, id ∈ (s₀.registering es).engineIds ↔ id ∈ es.map Engine.identifier
  /-- All can be registered at once just when no two have one identifier. -/
  all_iff : (registerAll es s₀).1 = .ok () ↔ (es.map Engine.identifier).Nodup
  /-- Then it is as if they had been registered one after the other. -/
  all : (registerAll es s₀).1 = .ok () → (registerAll es s₀).2 = s₀.registering es
  /-- Otherwise the first identifier is named that was there before. -/
  all_refused : ∀ error, (registerAll es s₀).1 = .error error ↔
    ∃ before e after, es = before ++ e :: after ∧ (before.map Engine.identifier).Nodup ∧
      e.identifier ∈ before.map Engine.identifier ∧ error = .duplicateEngine e.identifier
  /-- A reference is resolved by the engine whose identifier has the bytes of the one it names. -/
  answered : ∀ r, decrypt r (s₀.registering es) =
    match es.find? fun e => Utf8.ofString e.identifier = Utf8.ofString r.engine with
    | none => (.error (.noSuchEngine r.engine), s₀.registering es)
    | some e =>
        match e.validate r with
        | .error error => (.error error, s₀.registering es)
        | .ok () => decryptWith e r
            { s₀.registering es with log := .decrypting e.identifier :: (s₀.registering es).log }

/-- **The first engine with an identifier stays**, and all others with it are refused. -/
theorem firstWins (limits : CacheLimits) (store : Store) (es : List Engine) :
    FirstWins (empty limits store) es := by
  have hempty : (empty limits store).engines.names = [] := rfl
  have hfound : ∀ id, ((empty limits store).registering es).engines.get? id =
      es.find? fun e => e.identifier = id := get?_registering _ es
  constructor
  case refused_iff =>
    intro e
    rw [took_iff, hempty]
    by_cases h : e.identifier ∈ ((empty limits store).registering es).engines.names
    · have hmem := mem_names_registering.1 h
      rw [register_of_mem h]
      simpa [hempty] using hmem
    · have hno := mt mem_names_registering.2 h
      rw [(register_of_not_mem h).1]
      simpa [hempty] using hno
  case refused =>
    intro e error herror
    by_cases h : e.identifier ∈ ((empty limits store).registering es).engines.names
    · exact register_of_mem h
    · rw [(register_of_not_mem h).1] at herror
      cases herror
  case found => exact hfound
  case size => exact size_registering hempty
  case sorted => exact pairwise_engineIds _
  case listed =>
    intro id
    rw [mem_engineIds, mem_names_registering, hempty]
    simp
  case all_iff => exact registerAll_eq_ok_iff
  case all => exact registerAll_of_ok
  case all_refused => exact fun error => registerAll_eq_error_iff
  case answered =>
    intro r
    have hsame : ∀ e : Engine, (Utf8.ofString e.identifier = Utf8.ofString r.engine) =
        (e.identifier = r.engine) := fun e =>
      propext ⟨Utf8.ofString_injective, congrArg _⟩
    simp only [decrypt_eq, hfound, hsame]

end Resolver

end SecretResolver
