/-
**Where the values of a cache come from.**

Suppose that the computations for a key have certain results.  Then everything that the cache holds
for that key is such a result, and so is what a caller gets that waits for a computation.  Whether
somebody drops a key, time passes or a computation fails makes no difference to this.

Main definitions:

* `Shared.used`, `Shared.missed`, `Shared.begun`, `Shared.retired` — what is left of a cache after a
  hit, after a miss, after a start, and when a computation comes to its end;
* `Shared.Sourced` — all that a cache holds for a key, or has in flight for it, is a result for
  that key.

Main results:

* `Shared.request_cases`, `Shared.collect_eq` — requests and ends in these words;
* `Shared.request_absent`, `Shared.retired_only` — the first request for a key, and the first value;
* `Shared.Sourced.used`, `Shared.Sourced.missed`, `Shared.Sourced.begun`, `Shared.Sourced.retired`,
  `Shared.Sourced.clear` — what each operation keeps;
* `Shared.Sourced.computation?_begun` — a computation that is under way stays as it is.
-/

import SecretResolver.Proofs.Cache.Operations

set_option relaxedAutoImplicit false
set_option autoImplicit false

namespace SecretResolver

universe u v w

namespace Shared

variable {κ : Type u} {ε : Type w} {β : Type v} [DecidableEq κ]

/-! ### What operations leave -/

/-- The cache after a value was used. -/
def used (s : Shared κ ε β) (now : Nat) (k : κ) (e : Cache.Entry β) : Shared κ ε β :=
  { s with cache := { s.cache with
      entries := (k, { e with accessedAt := now }) :: Entries.drop k s.cache.entries } }

/-- The cache after a key was missed: what may have been over for it is gone. -/
def missed (s : Shared κ ε β) (k : κ) : Shared κ ε β :=
  { s with cache := { s.cache with entries := Entries.drop k s.cache.entries } }

/-- The cache with a computation started for a key that was missed. -/
def begun (s : Shared κ ε β) (k : κ) (c : Computation ε β) : Shared κ ε β where
  cache := { s.cache with
    entries := Entries.drop k s.cache.entries
    inFlight := (k, s.cache.nextFlight) :: s.cache.inFlight
    nextFlight := s.cache.nextFlight + 1 }
  computations := (s.cache.nextFlight, c) :: s.computations

/-- The cache when a computation has come to its end. -/
def retired (s : Shared κ ε β) (now : Nat) (k : κ) (flight : Nat) (result : Except ε β) :
    Shared κ ε β :=
  { s with cache := (s.cache.complete now k flight result).2 }

/-- A request uses a value, or joins the computation in flight, or has to start one. -/
theorem request_cases (s : Shared κ ε β) (now : Nat) (k : κ) :
    (∃ e, Entries.find? k s.cache.entries = some e ∧ e.isExpired s.cache.limits now = false ∧
      s.request now k = (.hit e.value, s.used now k e)) ∨
    ((∀ e, Entries.find? k s.cache.entries = some e → e.isExpired s.cache.limits now = true) ∧
      ((∃ flight, Entries.find? k s.cache.inFlight = some flight ∧
          s.request now k = (.joined flight, s.missed k)) ∨
        (Entries.find? k s.cache.inFlight = none ∧ ∃ expired s',
          s.request now k = (.started s.cache.nextFlight expired, s') ∧
            ∀ c, s'.begin_ s.cache.nextFlight c = s.begun k c))) := by
  rcases s.cache.request_cases now k with
    ⟨e, he, hlive, heq⟩ | ⟨hover, ⟨flight, hflight, heq⟩ | ⟨hno, expired, heq⟩⟩
  · exact .inl ⟨e, he, hlive, by simp [request, used, heq]⟩
  · exact .inr ⟨hover, .inl ⟨flight, hflight, by simp [request, missed, heq]⟩⟩
  · refine .inr ⟨hover, .inr ⟨hno, expired, _, by simp [request, heq]; rfl, ?_⟩⟩
    intro c
    rfl

theorem collect_eq {s : Shared κ ε β} {flight : Nat} {c : Computation ε β}
    (hc : s.computation? flight = some c) (now : Nat) (k : κ) :
    ∃ completion, s.collect now k flight =
      (some (c.result, completion), s.retired now k flight c.result) := by
  refine ⟨(s.cache.complete now k flight c.result).1, ?_⟩
  simp [collect, retired, hc]

/-- A key without a value and without a computation gets one. -/
theorem request_absent {s : Shared κ ε β} {k : κ} (now : Nat)
    (hentry : Entries.find? k s.cache.entries = none)
    (hflight : Entries.find? k s.cache.inFlight = none) :
    s.request now k = (.started s.cache.nextFlight false,
      { s with cache := { s.cache with
          inFlight := (k, s.cache.nextFlight) :: s.cache.inFlight
          nextFlight := s.cache.nextFlight + 1 } }) := by
  simp only [request, Cache.request, Cache.lookup, hentry, hflight]

/-- The value of the only computation is the only one in an empty cache. -/
theorem retired_only (l : CacheLimits) (now : Nat) (k : κ) (flight next : Nat)
    (computations : List (Nat × Computation ε β)) (value : β) :
    (⟨⟨l, [], [(k, flight)], next⟩, computations⟩ : Shared κ ε β).retired now k flight (.ok value) =
      ⟨⟨l, [(k, ⟨value, now, now⟩)], [], next⟩, computations⟩ := by
  simp [retired, Cache.complete, Cache.store, Entries.find?_cons, Entries.drop]

/-! ### Results for keys -/

/-- All that a cache holds for a key, or has in flight for it, is a result for that key. -/
structure Sourced (P : κ → Except ε β → Prop) (s : Shared κ ε β) : Prop where
  held : ∀ k e, Entries.find? k s.cache.entries = some e → P k (.ok e.value)
  flying : ∀ k flight, Entries.find? k s.cache.inFlight = some flight →
    ∃ c, s.computation? flight = some c ∧ P k c.result
  numbered : ∀ flight c, s.computation? flight = some c → flight < s.cache.nextFlight

variable {P Q : κ → Except ε β → Prop} {s : Shared κ ε β}

theorem sourced_empty (l : CacheLimits) : (empty l : Shared κ ε β).Sourced P where
  held := by simp [empty, Cache.empty]
  flying := by simp [empty, Cache.empty]
  numbered := by simp [empty, computation?]

theorem Sourced.mono (h : s.Sourced P) (hPQ : ∀ k result, P k result → Q k result) :
    s.Sourced Q where
  held k e he := hPQ _ _ (h.held k e he)
  flying k flight hf := by
    obtain ⟨c, hc, hP⟩ := h.flying k flight hf
    exact ⟨c, hc, hPQ _ _ hP⟩
  numbered := h.numbered

/-! ### Requests -/

/-- A value that is used stays the value of its key. -/
theorem Sourced.used (h : s.Sourced P) {k : κ} {e : Cache.Entry β}
    (he : Entries.find? k s.cache.entries = some e) (now : Nat) :
    (s.used now k e).Sourced P where
  held k' e' he' := by
    simp only [Shared.used, Entries.find?_cons] at he'
    split at he'
    · rename_i hk
      obtain rfl := Option.some.inj he'
      obtain rfl : k = k' := hk
      exact h.held k e he
    · rw [Entries.find?_drop] at he'
      split at he'
      · exact absurd he' (by simp)
      · exact h.held k' e' he'
  flying := h.flying
  numbered := h.numbered

theorem Sourced.missed (h : s.Sourced P) (k : κ) : (s.missed k).Sourced P where
  held k' e' he' := by
    simp only [Shared.missed, Entries.find?_drop] at he'
    split at he'
    · exact absurd he' (by simp)
    · exact h.held k' e' he'
  flying := h.flying
  numbered := h.numbered

/-- The number of a computation that starts is a new one. -/
theorem Sourced.computation?_begun (h : s.Sourced P) {flight : Nat} {c : Computation ε β}
    (hc : s.computation? flight = some c) (k : κ) (c' : Computation ε β) :
    (s.begun k c').computation? flight = some c := by
  have hlt := h.numbered flight c hc
  simp only [begun, computation?, Entries.find?_cons]
  rw [if_neg (by omega)]
  exact hc

theorem computation?_begun_self (s : Shared κ ε β) (k : κ) (c : Computation ε β) :
    (s.begun k c).computation? s.cache.nextFlight = some c := by
  simp [begun, computation?, Entries.find?_cons]

theorem Sourced.begun (h : s.Sourced P) {k : κ} {c : Computation ε β} (hP : P k c.result) :
    (s.begun k c).Sourced P where
  held := (h.missed k).held
  flying k' flight hf := by
    simp only [Shared.begun, Entries.find?_cons] at hf
    split at hf
    · rename_i hk
      obtain rfl := Option.some.inj hf
      obtain rfl : k = k' := hk
      exact ⟨c, s.computation?_begun_self k c, hP⟩
    · obtain ⟨c', hc', hP'⟩ := h.flying k' flight hf
      exact ⟨c', h.computation?_begun hc' k c, hP'⟩
  numbered flight c' hc' := by
    simp only [computation?, Shared.begun, Entries.find?_cons] at hc'
    show flight < s.cache.nextFlight + 1
    split at hc'
    · omega
    · have hlt := h.numbered flight c' hc'
      omega

/-! ### Collecting and clearing -/

/-- What is stored when a computation comes to its end is its result. -/
theorem Sourced.retired (h : s.Sourced P) {k : κ} {flight : Nat} {c : Computation ε β}
    (hP : P k c.result) (now : Nat) :
    (s.retired now k flight c.result).Sourced P := by
  unfold Shared.retired
  have hflying : ∀ k' flight', Entries.find? k' (Entries.drop k s.cache.inFlight) = some flight' →
      ∃ c', s.computation? flight' = some c' ∧ P k' c'.result := by
    intro k' flight' hf
    rw [Entries.find?_drop] at hf
    split at hf
    · exact absurd hf (by simp)
    · exact h.flying k' flight' hf
  rcases s.cache.complete_cases now k flight c.result with
    ⟨-, heq⟩ | ⟨-, ⟨value, hvalue, heq⟩ | ⟨error, -, heq⟩⟩
  · rw [heq]
    exact h
  · rw [heq]
    refine ⟨fun k' e' he' => ?_, hflying, h.numbered⟩
    replace he' : Entries.find? k' (s.cache.store now k value).2.entries = some e' := he'
    simp only [Cache.store, Entries.find?_cons] at he'
    split at he'
    · rename_i hk
      obtain rfl := Option.some.inj he'
      obtain rfl : k = k' := hk
      exact hvalue ▸ hP
    · -- what is kept was there before
      have hkept : Entries.find? k' (Entries.drop k s.cache.entries) = some e' := by
        have hsplit := List.take_append_drop (s.cache.limits.capacity - 1)
          (Entries.drop k s.cache.entries)
        rw [← hsplit, Entries.find?_append, he', Option.some_or]
      exact (h.missed k).held k' e' hkept
  · rw [heq]
    exact ⟨h.held, hflying, h.numbered⟩

theorem Sourced.clear (h : s.Sourced P) : s.clear.Sourced P where
  held := by simp [Shared.clear, Cache.clear]
  flying := by simp [Shared.clear, Cache.clear]
  numbered := h.numbered

end Shared

end SecretResolver
