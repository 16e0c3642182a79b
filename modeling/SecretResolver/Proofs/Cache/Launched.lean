/-
**Which computation a value comes from.**

The computations that were launched for a cache are listed, each with its number, the key that it was
launched for, and its result.  Everything that the cache holds or has in flight for a key is found in
this list under that key, and nothing else: a computation that somebody joins, and one whose value
stays in the cache long after, was launched for the very key that is asked for.

A computation that is no longer in flight never is again.

Main definitions:

* `Shared.Launched` — what a cache holds and has in flight was launched;
* `Shared.Gone` — a computation is not in flight, and its number is taken.

Main results:

* `Shared.Launched.begun`, `Shared.Launched.retired` — **what is held was launched for its key**,
  whatever is done;
* `Shared.Launched.gone_retired` — **a computation that was retired is gone**;
* `Shared.Gone.begun`, `Shared.Gone.retired`, `Shared.Gone.clear` — and stays so.
-/

import SecretResolver.Proofs.Cache.Sources

set_option relaxedAutoImplicit false
set_option autoImplicit false

namespace SecretResolver

universe u v w

namespace Shared

variable {κ : Type u} {ε : Type w} {β : Type v} [DecidableEq κ]

/-- After a computation was retired no other one is in flight than before. -/
theorem find?_inFlight_of_retired {s : Shared κ ε β} {now flight flight' : Nat} {k k' : κ}
    {result : Except ε β}
    (h : Entries.find? k' (s.retired now k flight result).cache.inFlight = some flight') :
    Entries.find? k' s.cache.inFlight = some flight' := by
  have hdrop (h : Entries.find? k' (Entries.drop k s.cache.inFlight) = some flight') :
      Entries.find? k' s.cache.inFlight = some flight' := by
    rw [Entries.find?_drop] at h
    split at h
    · exact absurd h.symm (Option.some_ne_none flight')
    · exact h
  unfold Shared.retired at h
  rcases s.cache.complete_cases now k flight result with
    ⟨-, heq⟩ | ⟨-, ⟨value, -, heq⟩ | ⟨error, -, heq⟩⟩
  · rwa [heq] at h
  · rw [heq] at h
    exact hdrop h
  · rw [heq] at h
    exact hdrop h

/-- After a computation was retired under a key it is not in flight for that key. -/
theorem find?_inFlight_retired_ne (s : Shared κ ε β) (now : Nat) (k : κ) (flight : Nat)
    (result : Except ε β) :
    Entries.find? k (s.retired now k flight result).cache.inFlight ≠ some flight := by
  have hdrop : Entries.find? k (Entries.drop k s.cache.inFlight) ≠ some flight := by
    simp [Entries.find?_drop]
  unfold Shared.retired
  rcases s.cache.complete_cases now k flight result with
    ⟨hno, heq⟩ | ⟨-, ⟨value, -, heq⟩ | ⟨error, -, heq⟩⟩
  · rwa [heq]
  · rw [heq]
    exact hdrop
  · rw [heq]
    exact hdrop

theorem nextFlight_retired (s : Shared κ ε β) (now : Nat) (k : κ) (flight : Nat)
    (result : Except ε β) :
    (s.retired now k flight result).cache.nextFlight = s.cache.nextFlight := by
  unfold Shared.retired
  rcases s.cache.complete_cases now k flight result with
    ⟨-, heq⟩ | ⟨-, ⟨value, -, heq⟩ | ⟨error, -, heq⟩⟩
  · rw [heq]
  · rw [heq]
    rfl
  · rw [heq]

/-! ### Computations that were launched -/

/-- Everything that a cache holds or has in flight for a key was launched for that key, and the
computations are those that were launched. -/
structure Launched (launches : List (Nat × κ × Except ε β)) (s : Shared κ ε β) : Prop where
  sourced : s.Sourced fun k result => ∃ flight, Entries.find? flight launches = some (k, result)
  flying : ∀ k flight, Entries.find? k s.cache.inFlight = some flight →
    ∃ result, Entries.find? flight launches = some (k, result)
  computed : ∀ flight, (s.computation? flight).map Computation.result =
    (Entries.find? flight launches).map Prod.snd

variable {launches : List (Nat × κ × Except ε β)} {s : Shared κ ε β} {k : κ} {flight : Nat}

theorem launched_empty (l : CacheLimits) : (empty l : Shared κ ε β).Launched [] where
  sourced := sourced_empty l
  flying := by simp [empty, Cache.empty]
  computed := by simp [empty, computation?]

namespace Launched

/-- A computation that was launched is there. -/
theorem computation?_of_find? (h : s.Launched launches) {result : Except ε β}
    (hf : Entries.find? flight launches = some (k, result)) :
    ∃ c, s.computation? flight = some c ∧ c.result = result := by
  have hcomputed := h.computed flight
  rw [hf, Option.map_some, Option.map_eq_some_iff] at hcomputed
  exact hcomputed

/-- Its number is taken. -/
theorem lt_nextFlight (h : s.Launched launches) {launch : κ × Except ε β}
    (hf : Entries.find? flight launches = some launch) : flight < s.cache.nextFlight := by
  obtain ⟨k, result⟩ := launch
  obtain ⟨c, hc, -⟩ := h.computation?_of_find? hf
  exact h.sourced.numbered flight c hc

theorem used (h : s.Launched launches) {e : Cache.Entry β}
    (he : Entries.find? k s.cache.entries = some e) (now : Nat) :
    (s.used now k e).Launched launches := ⟨h.sourced.used he now, h.flying, h.computed⟩

theorem missed (h : s.Launched launches) (k : κ) : (s.missed k).Launched launches :=
  ⟨h.sourced.missed k, h.flying, h.computed⟩

/-- The number of a computation that starts is a new one, so what was launched before is found as it
was. -/
theorem find?_begun (h : s.Launched launches) {launch launch' : κ × Except ε β}
    (hf : Entries.find? flight launches = some launch) :
    Entries.find? flight ((s.cache.nextFlight, launch') :: launches) = some launch := by
  have hlt := h.lt_nextFlight hf
  rw [Entries.find?_cons, if_neg (by dsimp only; omega)]
  exact hf

theorem begun (h : s.Launched launches) (k : κ) (c : Computation ε β) :
    (s.begun k c).Launched ((s.cache.nextFlight, k, c.result) :: launches) where
  sourced := by
    refine (h.sourced.mono ?_).begun ⟨s.cache.nextFlight, by simp [Entries.find?_cons]⟩
    rintro k' result ⟨flight, hf⟩
    exact ⟨flight, h.find?_begun hf⟩
  flying k' flight hf := by
    simp only [Shared.begun, Entries.find?_cons] at hf
    split at hf
    · rename_i hk
      obtain rfl := Option.some.inj hf
      obtain rfl : k = k' := hk
      exact ⟨c.result, by simp [Entries.find?_cons]⟩
    · obtain ⟨result, hf⟩ := h.flying k' flight hf
      exact ⟨result, h.find?_begun hf⟩
  computed flight := by
    simp only [Shared.begun, computation?, Entries.find?_cons]
    split
    · rfl
    · exact h.computed flight

/-- What is stored when a computation comes to its end was launched for its key. -/
theorem retired (h : s.Launched launches) {c : Computation ε β}
    (hf : Entries.find? flight launches = some (k, c.result)) (now : Nat) :
    (s.retired now k flight c.result).Launched launches :=
  ⟨h.sourced.retired ⟨flight, hf⟩ now,
    fun k' flight' hin => h.flying k' flight' (find?_inFlight_of_retired hin), h.computed⟩

theorem clear (h : s.Launched launches) : s.clear.Launched launches where
  sourced := h.sourced.clear
  flying := by simp [Shared.clear, Cache.clear]
  computed := h.computed

end Launched

/-! ### Computations that are gone -/

/-- A computation is not in flight, and its number is taken. -/
structure Gone (flight : Nat) (s : Shared κ ε β) : Prop where
  notFlying : ∀ k, Entries.find? k s.cache.inFlight ≠ some flight
  taken : flight < s.cache.nextFlight

/-- **A computation that was retired under the key that it was launched for is gone.** -/
theorem Launched.gone_retired (h : s.Launched launches) {result : Except ε β}
    (hf : Entries.find? flight launches = some (k, result)) (now : Nat) :
    (s.retired now k flight result).Gone flight where
  notFlying k' hin := by
    -- it was launched for one key, and so it was in flight for no other one
    obtain ⟨result', hf'⟩ := h.flying k' flight (find?_inFlight_of_retired hin)
    obtain rfl : k = k' := congrArg Prod.fst (Option.some.inj (hf.symm.trans hf'))
    exact find?_inFlight_retired_ne s now k flight result hin
  taken := by
    rw [nextFlight_retired]
    exact h.lt_nextFlight hf

namespace Gone

theorem begun (h : s.Gone flight) (k : κ) (c : Computation ε β) : (s.begun k c).Gone flight where
  notFlying k' hin := by
    have htaken := h.taken
    simp only [Shared.begun, Entries.find?_cons] at hin
    split at hin
    · have heq := Option.some.inj hin
      omega
    · exact h.notFlying k' hin
  taken := Nat.lt_succ_of_lt h.taken

theorem retired (h : s.Gone flight) (now : Nat) (k : κ) (flight' : Nat) (result : Except ε β) :
    (s.retired now k flight' result).Gone flight where
  notFlying k' hin := h.notFlying k' (find?_inFlight_of_retired hin)
  taken := by
    rw [nextFlight_retired]
    exact h.taken

theorem clear (h : s.Gone flight) : s.clear.Gone flight where
  notFlying := by simp [Shared.clear, Cache.clear]
  taken := h.taken

end Gone

end Shared

end SecretResolver
