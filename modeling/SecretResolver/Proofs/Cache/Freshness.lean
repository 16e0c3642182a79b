/-
**Nothing old after a key was dropped.**

A computation that runs while its key is dropped goes on for those who wait for it already, and may
come to its end at any time later, when another computation for the key is in flight or its value is
stored.  Yet nothing of it reaches anybody who comes after the drop: its number is not the one in
flight any more and never will be again, so what is stored since was started since.

Main definitions:

* `Calls.Fresh` — what is answered and stored for a key within a part of a history was also started
  within it.

Main results:

* `Calls.Lawful.computes_of_stored?`, `Calls.Lawful.launches_of_waits?_since` — since a key was
  dropped, what is stored and what new calls wait for was started since then;
* `Calls.fresh_of_drops` — **what is answered and stored since a key was dropped was started since
  then**.
-/

import SecretResolver.Proofs.Cache.Flights

set_option relaxedAutoImplicit false
set_option autoImplicit false

namespace SecretResolver

universe u v w

namespace Calls

variable {κ : Type u} {ε : Type w} {β : Type v}

variable [DecidableEq κ]

/-- What is answered and stored for a key within a part of a history, `before` being what was before
it, comes from computations that were started within that part. -/
structure Fresh (before : List (Event κ ε β)) (k : κ) (since : List (Event κ ε β)) : Prop where
  /-- The numbers of these computations were free before. -/
  free : ∀ flight c, Launches since k flight c → ∀ k' c', ¬ Launches before k' flight c'
  /-- A lookup finds a value that was stored by one of these computations. -/
  found : ∀ newer e older v, since = newer ++ e :: older → e.found? k = some v →
    ∃ s, stored? k (older ++ before) = some s ∧ s.value = v ∧ Computes older k s.flight (.ok v)
  /-- A call that began within the part returns the result of one of these computations. -/
  returned : ∀ newer e older call flight result completion, since = newer ++ e :: older →
    e.what = .returned call k flight result completion → (∃ e' ∈ older, e'.awaits? call ≠ none) →
    Computes older k flight result
  /-- A value that is stored comes from one of these computations. -/
  stored : ∀ newer e older s, since = newer ++ e :: older → e.stores? k = some s →
    Computes older k s.flight (.ok s.value)
  /-- A computation that was started before is passed over when it comes to its end. -/
  stale : ∀ newer e older call flight result completion, since = newer ++ e :: older →
    e.what = .returned call k flight result completion → (∃ k' c, Launches before k' flight c) →
    completion = .stale

variable {l : CacheLimits} {past newer older since : List (Event κ ε β)} {k : κ} {flight : Nat}
variable {e d : Event κ ε β}

/-! ### Since a key was dropped -/

theorem Event.starts?_of_drops (h : d.drops k = true) : d.starts? k = none := by
  obtain ⟨time, what⟩ := d
  cases what <;> first | rfl | exact absurd h (by simp [Event.drops])

theorem Event.stores?_of_drops (h : d.drops k = true) : d.stores? k = none := by
  obtain ⟨time, what⟩ := d
  cases what <;> first | rfl | exact absurd h (by simp [Event.drops])

theorem Event.retires_of_drops (h : d.drops k = true) : d.retires k = true := by
  simp [Event.retires, h]

/-- A value that is stored since the key was dropped comes from a computation since then. -/
theorem Lawful.computes_of_stores? (h : Lawful l (e :: (older ++ d :: past)))
    (hd : d.drops k = true) {s : Stored β} (hs : e.stores? k = some s) :
    Computes older k s.flight (.ok s.value) := by
  obtain ⟨-, call, displaced, hw⟩ := Event.returned_of_stores? hs
  obtain ⟨c, hc⟩ := launches_since_of_flying? (Event.starts?_of_drops hd)
      (Event.retires_of_drops hd) (h.1.flying?_of_ne_stale hw (by simp))
  exact h.computes_of_returned hw hc (List.subset_append_left ..)

/-- What is stored since the key was dropped comes from a computation since then. -/
theorem Lawful.computes_of_stored? (h : Lawful l (since ++ d :: past)) (hd : d.drops k = true)
    {s : Stored β} (hs : stored? k (since ++ d :: past) = some s) :
    stored? k since = some s ∧ Computes since k s.flight (.ok s.value) := by
  have hremoves : d.removes k = true := by simp [Event.removes, hd]
  have hsince : stored? k (since ++ d :: past) = stored? k since :=
    latest_since (Event.stores?_of_drops hd) hremoves
  rw [hsince] at hs
  refine ⟨hs, ?_⟩
  obtain ⟨newer, e, older, rfl, hst, -⟩ := latest_eq_some_iff.1 hs
  rw [List.append_assoc, List.cons_append] at h
  refine (h.older.computes_of_stores? hd hst).mono fun x hx => ?_
  simp [hx]

/-- What a call waits for that began since the key was dropped was started since then. -/
theorem Lawful.launches_of_waits?_since (h : Lawful l (since ++ d :: past))
    (hd : d.drops k = true) {call : Nat} (hbegan : ∃ e ∈ since, e.awaits? call ≠ none)
    (hw : waits? call (since ++ d :: past) = some ⟨k, flight⟩) :
    ∃ c, Launches since k flight c := by
  obtain ⟨e, he, hne⟩ := hbegan
  obtain ⟨w, hs⟩ := Option.ne_none_iff_exists'.1 hne
  have hsince : waits? call since = some ⟨k, flight⟩ :=
    (latest_append_of_isSome he hs).symm.trans hw
  obtain ⟨newer, b, older, rfl, hb, -⟩ := latest_eq_some_iff.1 hsince
  rw [List.append_assoc, List.cons_append] at h
  -- the call joined what was in flight when it began, or it started a computation itself
  rcases (h.permitted.awaits? hb).2 with hf | ⟨c, hst⟩
  · obtain ⟨c, hc⟩ := launches_since_of_flying? (Event.starts?_of_drops hd)
      (Event.retires_of_drops hd) hf
    exact ⟨c, hc.mono fun x hx => by simp [hx]⟩
  · exact ⟨c, b, by simp, call, hst⟩

/-- A computation started since has a number that was free before. -/
theorem Lawful.free_before (h : Lawful l (since ++ past)) {c : Computation ε β}
    (hl : Launches since k flight c) (k' : κ) (c' : Computation ε β) :
    ¬ Launches past k' flight c' := by
  intro hl'
  have hlt := h.older.lt_launched hl'
  exact absurd hlt (not_lt.2 (h.launched_le hl))

/-- In a lawful history nothing old answers for a key, and nothing old is stored, since it was
dropped. -/
theorem Lawful.fresh (h : Lawful l (since ++ d :: past)) (hd : d.drops k = true) :
    Fresh (d :: past) k since where
  free flight c hl k' c' := h.free_before hl k' c'
  found newer e older v heq hf := by
    rw [heq, List.append_assoc, List.cons_append] at h
    obtain ⟨s, hs, -, rfl⟩ := visible?_eq_some_iff.1 (h.permitted.found? hf)
    exact ⟨s, hs, rfl, (h.older.2.computes_of_stored? hd hs).2⟩
  returned newer e older call flight result completion heq hw hbegan := by
    rw [heq, List.append_assoc, List.cons_append] at h
    have hwaits : waits? call (older ++ d :: past) = some ⟨k, flight⟩ := by
      have hp := h.permitted
      simp only [Permitted, hw] at hp
      exact hp.1
    obtain ⟨c, hc⟩ := h.older.2.launches_of_waits?_since hd hbegan hwaits
    exact h.older.computes_of_returned hw hc (List.subset_append_left ..)
  stored newer e older s heq hs := by
    rw [heq, List.append_assoc, List.cons_append] at h
    exact h.older.computes_of_stores? hd hs
  stale newer e older call flight result completion heq hw hold := by
    rw [heq, List.append_assoc, List.cons_append] at h
    obtain ⟨k', c', hl'⟩ := hold
    by_contra hne
    obtain ⟨c, hc⟩ := launches_since_of_flying? (Event.starts?_of_drops hd)
      (Event.retires_of_drops hd) (h.permitted.flying?_of_ne_stale hw hne)
    exact h.older.2.free_before hc k' c' hl'

/-! ### All runs -/

/-- **What is answered and stored since a key was dropped was started since then**, and so was what
is held for the key in the end. -/
theorem fresh_of_drops (l : CacheLimits) (ms : List (Move κ ε β))
    (h : history l ms = since ++ d :: past) (hd : d.drops k = true) :
    Fresh (d :: past) k since ∧
      ∀ entry, Entries.find? k (after l ms).shared.cache.entries = some entry →
        ∃ s, stored? k since = some s ∧ s.value = entry.value ∧
          Computes since k s.flight (.ok entry.value) := by
  have hlawful := history_lawful l ms
  rw [h] at hlawful
  refine ⟨hlawful.fresh hd, fun entry hentry => ?_⟩
  have hheld := (history_reflected l ms).entries.held k
  rw [hentry, h] at hheld
  obtain ⟨s, hs, rfl, -⟩ := hheld
  obtain ⟨hsince, hcomputes⟩ := hlawful.computes_of_stored? hd hs
  exact ⟨s, hsince, rfl, hcomputes⟩

/-- A computation comes to its end after its key was dropped, while a newer one is in flight: only
the newer one is stored and found. -/
theorem fresh_of_drops_overtaken :
    let l : CacheLimits := ⟨2, 60, 60⟩
    let ms : List (Move Nat String String) :=
      [.peek 7, .poll 1, .pass 5, .poll 0, .pass 5, .call 7 ⟨10, .ok "new"⟩, .invalidate 7,
        .call 7 ⟨5, .ok "old"⟩]
    let before : List (Event Nat String String) :=
      [⟨0, .invalidated 7⟩, ⟨0, .started 0 7 0 ⟨5, .ok "old"⟩⟩]
    ∃ since, history l ms = since ++ before ∧
      since.head? = some ⟨10, .peeked 7 (some "new")⟩ ∧ Fresh before 7 since :=
  ⟨[⟨10, .peeked 7 (some "new")⟩, ⟨10, .returned 1 7 1 (.ok "new") (.stored none)⟩, ⟨5, .passed 5⟩,
      ⟨5, .returned 0 7 0 (.ok "old") .stale⟩, ⟨0, .passed 5⟩,
      ⟨0, .started 1 7 1 ⟨10, .ok "new"⟩⟩],
    rfl, rfl, (fresh_of_drops ⟨2, 60, 60⟩ [.peek 7, .poll 1, .pass 5, .poll 0, .pass 5,
      .call 7 ⟨10, .ok "new"⟩, .invalidate 7, .call 7 ⟨5, .ok "old"⟩] rfl rfl).1⟩

end Calls

end SecretResolver
