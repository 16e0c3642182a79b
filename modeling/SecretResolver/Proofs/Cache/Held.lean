/-
**What a cache holds is what its history says.**

An entry carries two times only, while its history tells of a store and of every lookup since.  The
two agree: the entry under a key has the value and the time of the store that counts and the time of
its last use, and where there is no entry no lookup has to find anything, because the value was
removed or one of its lifetimes is over for good.

Main definitions:

* `Calls.HeldAs` — what is held under one key agrees with a history;
* `Calls.Holds` — the entries of a cache agree with a history, and they are distinct and not too
  many.

Main results:

* `Calls.HeldAs.visible?_eq` — **an entry that is not over is what a lookup has to find**;
* `Calls.HeldAs.keep`, `HeldAs.store`, `HeldAs.remove`, `HeldAs.use`, `HeldAs.expire`,
  `HeldAs.pass` — what may happen to a key keeps the agreement;
* `Calls.Holds.use`, `Holds.forget`, `Holds.store`, `Holds.drop`, `Holds.cleanup`, `Holds.pass` —
  what may happen to a cache does.
-/

import SecretResolver.Proofs.Cache.Operations
import SecretResolver.Proofs.Cache.Past

set_option relaxedAutoImplicit false
set_option autoImplicit false

namespace SecretResolver

universe u v w

namespace Calls

variable {κ : Type u} {ε : Type w} {β : Type v} [DecidableEq κ]
variable {l : CacheLimits} {past : List (Event κ ε β)} {now : Nat} {k : κ}

/-! ### One key -/

/-- The time of the last use of what is stored under a key, its store counted as one. -/
def lastUse (k : κ) (past : List (Event κ ε β)) (s : Stored β) : Nat :=
  (uses k past).headD s.writtenAt

/-- What is held under a key agrees with a history: an entry with the store that counts and the uses
since then, and no entry with nothing to find. -/
def HeldAs (l : CacheLimits) (past : List (Event κ ε β)) (now : Nat) (k : κ) :
    Option (Cache.Entry β) → Prop
  -- an entry that is over may have gone already, or may still be there: then `isExpired` tells
  | none => visible? l k now past = none
  | some e => ∃ s, stored? k past = some s ∧ e = ⟨s.value, s.writtenAt, lastUse k past s⟩ ∧
      (uses k past ++ [s.writtenAt]).IsChain fun later earlier => later - earlier < l.afterAccess

/-- Lasting up to now, when the uses so far were never far apart, is a matter of the last one. -/
theorem lasts_iff {s : Stored β}
    (h : (uses k past ++ [s.writtenAt]).IsChain
      fun later earlier => later - earlier < l.afterAccess) :
    s.Lasts l now (uses k past) ↔
      now - s.writtenAt < l.afterWrite ∧ now - lastUse k past s < l.afterAccess := by
  unfold Stored.Lasts lastUse
  -- all gaps but the one up to now lie in the past, and the chain says that they are small
  cases hu : uses k past with
  | nil => simp
  | cons t ts =>
      rw [hu] at h
      simp only [List.cons_append, List.isChain_cons_cons, List.headD_cons]
      exact ⟨fun hl => ⟨hl.1, hl.2.1⟩, fun hl => ⟨hl.1, hl.2, h⟩⟩

theorem isExpired_eq_false_iff {e : Cache.Entry β} :
    e.isExpired l now = false ↔
      now - e.writtenAt < l.afterWrite ∧ now - e.accessedAt < l.afterAccess := by
  simp [Cache.Entry.isExpired]

/-- **An entry that is not over is what a lookup has to find.** -/
theorem HeldAs.visible?_eq {e : Cache.Entry β} (h : HeldAs l past now k (some e)) :
    visible? l k now past = if e.isExpired l now then none else some e.value := by
  obtain ⟨s, hs, rfl, hchain⟩ := h
  have hlasts : s.Lasts l now (uses k past) ↔ _ := lasts_iff hchain
  cases he : Cache.Entry.isExpired ⟨s.value, s.writtenAt, lastUse k past s⟩ l now with
  | true =>
      have hno : ¬ s.Lasts l now (uses k past) := by
        rw [hlasts, ← isExpired_eq_false_iff (e := ⟨s.value, _, _⟩), he]
        simp
      simp [visible?, hs, hno]
  | false =>
      have hyes : s.Lasts l now (uses k past) := by
        rw [hlasts, ← isExpired_eq_false_iff (e := ⟨s.value, _, _⟩), he]
      simp [visible?, hs, hyes]

/-- Nothing changes by an event that does not concern the key. -/
theorem stored?_of_keep {e : Event κ ε β} (hs : e.stores? k = none) (hr : e.removes k = false) :
    stored? k (e :: past) = stored? k past := latest_of_keep past hs hr

theorem uses_of_keep {e : Event κ ε β} (hs : e.stores? k = none) (hf : e.found? k = none) :
    uses k (e :: past) = uses k past := by
  simp [uses, hs, hf]

theorem uses_of_found {e : Event κ ε β} {v : β} (hs : e.stores? k = none)
    (hf : e.found? k = some v) : uses k (e :: past) = e.time :: uses k past := by
  simp [uses, hs, hf]

theorem visible?_of_keep {e : Event κ ε β} (hs : e.stores? k = none) (hr : e.removes k = false)
    (hf : e.found? k = none) : visible? l k now (e :: past) = visible? l k now past := by
  unfold visible?
  rw [stored?_of_keep hs hr, uses_of_keep hs hf]

theorem HeldAs.keep {o : Option (Cache.Entry β)} {e : Event κ ε β} (h : HeldAs l past now k o)
    (hs : e.stores? k = none) (hr : e.removes k = false) (hf : e.found? k = none) :
    HeldAs l (e :: past) now k o := by
  cases o with
  | none => exact (visible?_of_keep hs hr hf).trans h
  | some entry =>
      obtain ⟨s, hst, heq, hchain⟩ := h
      refine ⟨s, (stored?_of_keep hs hr).trans hst, ?_, ?_⟩
      · rw [heq, lastUse, lastUse, uses_of_keep hs hf]
      · rwa [uses_of_keep hs hf]

theorem HeldAs.store {e : Event κ ε β} {s : Stored β} (hs : e.stores? k = some s) :
    HeldAs l (e :: past) now k (some ⟨s.value, s.writtenAt, s.writtenAt⟩) := by
  have hu : uses k (e :: past) = [] := by simp [uses, hs]
  exact ⟨s, latest_of_set past hs, by simp [lastUse, hu], by simp [hu]⟩

theorem HeldAs.remove {e : Event κ ε β} (hs : e.stores? k = none) (hr : e.removes k = true) :
    HeldAs l (e :: past) now k none := by
  have hst : stored? k (e :: past) = none := latest_of_clear past hs hr
  simp [HeldAs, visible?, hst]

/-- A use of a value keeps it for longer, because it comes in time. -/
theorem HeldAs.use {entry : Cache.Entry β} {e : Event κ ε β} {v : β}
    (h : HeldAs l past now k (some entry)) (hlive : entry.isExpired l now = false)
    (hs : e.stores? k = none) (hr : e.removes k = false) (hf : e.found? k = some v)
    (ht : e.time = now) :
    HeldAs l (e :: past) now k (some { entry with accessedAt := now }) := by
  obtain ⟨s, hst, rfl, hchain⟩ := h
  -- the new gap is the one that the lookup has just found to be small
  have hlasts := (lasts_iff hchain).2 (isExpired_eq_false_iff.1 hlive)
  refine ⟨s, (stored?_of_keep hs hr).trans hst, ?_, ?_⟩
  · simp [lastUse, uses_of_found hs hf, ht]
  · rw [uses_of_found hs hf, ht]
    exact hlasts.2

/-- An entry that is over is nothing that a lookup has to find. -/
theorem HeldAs.expire {entry : Cache.Entry β} (h : HeldAs l past now k (some entry))
    (hover : entry.isExpired l now = true) : HeldAs l past now k none := by
  rw [HeldAs, h.visible?_eq, if_pos hover]

/-- What does not last up to some time does not last any longer. -/
theorem Stored.Lasts.of_le {s : Stored β} {now' : Nat} {us : List Nat} (h : s.Lasts l now' us)
    (hle : now ≤ now') : s.Lasts l now us := by
  refine ⟨by have := h.1; omega, ?_⟩
  have hchain := h.2
  -- time passes at the newer end of the chain only, and makes its first gap greater
  cases us with
  | nil =>
      simp only [List.nil_append, List.isChain_cons_cons] at hchain ⊢
      exact ⟨by omega, hchain.2⟩
  | cons t ts =>
      simp only [List.cons_append, List.isChain_cons_cons] at hchain ⊢
      exact ⟨by omega, hchain.2⟩

/-- **What is over stays over.** -/
theorem visible?_eq_none_of_le {now' : Nat} (h : visible? l k now past = none) (hle : now ≤ now') :
    visible? l k now' past = none := by
  rw [Option.eq_none_iff_forall_ne_some] at h ⊢
  intro v hv
  obtain ⟨s, hs, hlasts, rfl⟩ := visible?_eq_some_iff.1 hv
  exact h s.value (visible?_eq_some_iff.2 ⟨s, hs, hlasts.of_le hle, rfl⟩)

theorem HeldAs.pass {o : Option (Cache.Entry β)} {now' : Nat} (h : HeldAs l past now k o)
    (hle : now ≤ now') : HeldAs l past now' k o := by
  cases o with
  | none => exact visible?_eq_none_of_le h hle
  | some entry => exact h

/-! ### All keys -/

/-- The entries of a cache agree with a history under every key; their keys are distinct, and there
is room for them. -/
structure Holds (l : CacheLimits) (past : List (Event κ ε β)) (now : Nat)
    (entries : List (κ × Cache.Entry β)) : Prop where
  /-- No key has two entries. -/
  distinct : (Entries.names entries).Nodup
  /-- There is room for all entries. -/
  room : entries.length ≤ l.capacity
  /-- The entry of every key is what the history says. -/
  held : ∀ k, HeldAs l past now k (Entries.find? k entries)

variable {entries : List (κ × Cache.Entry β)} {e : Event κ ε β}

theorem Holds.visible?_of_live (h : Holds l past now entries) {entry : Cache.Entry β}
    (hf : Entries.find? k entries = some entry) (hlive : entry.isExpired l now = false) :
    visible? l k now past = some entry.value := by
  have hk := h.held k
  rw [hf] at hk
  rw [hk.visible?_eq, hlive]
  rfl

theorem Holds.visible?_of_over (h : Holds l past now entries)
    (hover : ∀ entry, Entries.find? k entries = some entry → entry.isExpired l now = true) :
    visible? l k now past = none := by
  have hk := h.held k
  cases hf : Entries.find? k entries with
  | none => rwa [hf] at hk
  | some entry =>
      rw [hf] at hk
      rw [hk.visible?_eq, hover entry hf]
      rfl

/-- An event that concerns no entry changes nothing. -/
theorem Holds.keep (h : Holds l past now entries) (hs : ∀ k, e.stores? k = none)
    (hr : ∀ k, e.removes k = false) (hf : ∀ k, e.found? k = none) :
    Holds l (e :: past) now entries :=
  ⟨h.distinct, h.room, fun k => (h.held k).keep (hs k) (hr k) (hf k)⟩

/-- Entries that are over may go at any time. -/
theorem Holds.forget (h : Holds l past now entries)
    (hover : ∀ entry, Entries.find? k entries = some entry → entry.isExpired l now = true) :
    Holds l past now (Entries.drop k entries) := by
  refine ⟨Entries.names_drop_nodup h.distinct, ?_, fun k' => ?_⟩
  · exact (List.length_filter_le ..).trans h.room
  · rw [Entries.find?_drop]
    split
    · rename_i hk
      subst hk
      exact h.visible?_of_over hover
    · exact h.held k'

theorem Holds.cleanup (h : Holds l past now entries) :
    Holds l past now (entries.filter fun entry => !entry.2.isExpired l now) := by
  refine ⟨h.distinct.sublist (List.Sublist.map _ List.filter_sublist), ?_, fun k => ?_⟩
  · exact (List.length_filter_le ..).trans h.room
  · have hk := h.held k
    -- with two entries under one key a filter could bring out the second one
    rw [Entries.find?_filter k _ h.distinct]
    cases hf : Entries.find? k entries with
    | none => rwa [hf] at hk
    | some entry =>
        rw [hf] at hk
        cases he : entry.isExpired l now with
        | true => simpa [Option.filter, he] using hk.expire he
        | false => simpa [Option.filter, he] using hk

/-- A lookup that finds an entry makes it the most recently used one. -/
theorem Holds.use (h : Holds l past now entries) {entry : Cache.Entry β} {v : β}
    (hf : Entries.find? k entries = some entry) (hlive : entry.isExpired l now = false)
    (hs : ∀ k', e.stores? k' = none) (hr : ∀ k', e.removes k' = false)
    (hfound : ∀ k', e.found? k' = if k = k' then some v else none) (ht : e.time = now) :
    Holds l (e :: past) now ((k, { entry with accessedAt := now }) :: Entries.drop k entries) := by
  -- the key has an entry, so putting it in front takes no more room
  have hmem : k ∈ Entries.names entries := by
    by_contra hno
    rw [Entries.find?_eq_none_iff.2 hno] at hf
    exact absurd hf (by simp)
  refine ⟨?_, ?_, fun k' => ?_⟩
  · exact List.nodup_cons.2
      ⟨Entries.not_mem_names_drop k entries, Entries.names_drop_nodup h.distinct⟩
  · have hlt := Entries.length_drop_lt hmem
    have hroom := h.room
    simp only [List.length_cons]
    omega
  · have hk := h.held k'
    rw [Entries.find?_cons, Entries.find?_drop]
    by_cases hkk : k = k'
    · subst hkk
      rw [hf] at hk
      simpa using hk.use hlive (hs k) (hr k) ((hfound k).trans (if_pos rfl)) ht
    · rw [if_neg hkk, if_neg hkk]
      exact hk.keep (hs k') (hr k') ((hfound k').trans (if_neg hkk))

/-- A store puts a value under its key and removes the entry of the key that it displaces. -/
theorem Holds.store {c : Cache κ β} (h : Holds l past now c.entries) (hl : c.limits = l)
    {s : Stored β} (hs : ∀ k', e.stores? k' = if k = k' then some s else none)
    (hr : ∀ k', k ≠ k' → e.removes k' = decide (c.displaced? k = some k'))
    (hf : ∀ k', e.found? k' = none) (ht : s.writtenAt = now) :
    Holds l (e :: past) now (c.store now k s.value).2.entries := by
  subst hl
  refine ⟨Cache.names_store_nodup h.distinct .., Cache.length_store_le .., fun k' => ?_⟩
  rw [Cache.find?_store h.distinct h.room]
  by_cases hkk : k = k'
  · have hst : HeldAs c.limits (e :: past) now k' _ := HeldAs.store ((hs k').trans (if_pos hkk))
    rw [if_pos hkk]
    rwa [ht] at hst
  · rw [if_neg hkk]
    have hs' : e.stores? k' = none := (hs k').trans (if_neg hkk)
    by_cases hd : c.displaced? k = some k'
    · rw [if_pos hd]
      exact HeldAs.remove hs' ((hr k' hkk).trans (by simpa using hd))
    · rw [if_neg hd]
      exact (h.held k').keep hs' ((hr k' hkk).trans (by simpa using hd)) (hf k')

/-- What is dropped is gone, be it one key or all of them. -/
theorem Holds.drop {dropped : List (κ × Cache.Entry β)} (h : Holds l past now entries)
    (hsub : dropped.Sublist entries) (hs : ∀ k, e.stores? k = none)
    (hf : ∀ k, e.found? k = none)
    (hr : ∀ k, Entries.find? k dropped =
      if e.removes k then none else Entries.find? k entries) :
    Holds l (e :: past) now dropped := by
  refine ⟨h.distinct.sublist (hsub.map _), hsub.length_le.trans h.room, fun k => ?_⟩
  rw [hr k]
  cases hrem : e.removes k with
  | true => exact HeldAs.remove (hs k) hrem
  | false => exact (h.held k).keep (hs k) hrem (hf k)

theorem Holds.pass (h : Holds l past now entries) {now' : Nat} (hle : now ≤ now') :
    Holds l past now' entries :=
  ⟨h.distinct, h.room, fun k => (h.held k).pass hle⟩

end Calls

end SecretResolver
