/-
**What the operations of a cache and its calls lead to.**

Each operation is described once: the cases it has, what it answers and the state it leaves, guards
included.  Whatever is said about a cache elsewhere rests on these descriptions and not on the
definitions.

Main definitions:

* `Calls.sees?` — the value that a lookup finds now.

Main results:

* `Cache.lookup_cases`, `Cache.request_cases`, `Cache.complete_cases` — what operations lead to;
* `Calls.call_cases`, `Calls.poll_cases`, `Calls.peek_cases` — what calls and lookups lead to;
* `Calls.poll_of_ready` — a call whose computation is ready goes on;
* `Cache.lookup_value?_eq_none_iff` — when a lookup finds nothing;
* `Cache.find?_store` — **a store removes no entry but that of the key it displaces**;
* `Cache.names_store_nodup`, `Cache.length_store_le` — after a store keys are distinct and not too
  many.
-/

import SecretResolver.Cache.Calls

set_option relaxedAutoImplicit false
set_option autoImplicit false

namespace SecretResolver

universe u v w

namespace Cache

variable {κ : Type u} {β : Type v} [DecidableEq κ]

/-- Looking up a key finds a value and uses it, or there is nothing that is not over. -/
theorem lookup_cases (c : Cache κ β) (now : Nat) (k : κ) :
    (∃ e, Entries.find? k c.entries = some e ∧ e.isExpired c.limits now = false ∧
      c.lookup now k = (.hit e.value,
        { c with entries := (k, { e with accessedAt := now }) :: Entries.drop k c.entries })) ∨
    ((∀ e, Entries.find? k c.entries = some e → e.isExpired c.limits now = true) ∧
      ∃ r : Lookup β, r.value? = none ∧
        c.lookup now k = (r, { c with entries := Entries.drop k c.entries })) := by
  cases h : Entries.find? k c.entries with
  | none =>
      have hd : Entries.drop k c.entries = c.entries := Entries.drop_eq_self h
      exact .inr ⟨by simp, .absent, rfl, by simp [lookup, h, hd]⟩
  | some e =>
      cases he : e.isExpired c.limits now with
      | true => exact .inr ⟨by simpa using he, .expired, rfl, by simp [lookup, h, he]⟩
      | false => exact .inl ⟨e, rfl, he, by simp [lookup, h, he]⟩

/-- A lookup finds nothing just when there is no entry that is not over. -/
theorem lookup_value?_eq_none_iff (c : Cache κ β) (now : Nat) (k : κ) :
    (c.lookup now k).1.value? = none ↔
      ∀ e, Entries.find? k c.entries = some e → e.isExpired c.limits now = true := by
  rcases c.lookup_cases now k with ⟨e, he, hl, heq⟩ | ⟨he, r, hr, heq⟩
  · simp [heq, Lookup.value?, he, hl]
  · rw [heq]
    exact ⟨fun _ => he, fun _ => hr⟩

/-- A request uses a value, or joins the computation in flight, or starts one if there is none. -/
theorem request_cases (c : Cache κ β) (now : Nat) (k : κ) :
    (∃ e, Entries.find? k c.entries = some e ∧ e.isExpired c.limits now = false ∧
      c.request now k = (.hit e.value,
        { c with entries := (k, { e with accessedAt := now }) :: Entries.drop k c.entries })) ∨
    ((∀ e, Entries.find? k c.entries = some e → e.isExpired c.limits now = true) ∧
      ((∃ flight, Entries.find? k c.inFlight = some flight ∧
          c.request now k = (.joined flight, { c with entries := Entries.drop k c.entries })) ∨
        (Entries.find? k c.inFlight = none ∧ ∃ expired,
          c.request now k = (.started c.nextFlight expired,
            { c with
              entries := Entries.drop k c.entries
              inFlight := (k, c.nextFlight) :: c.inFlight
              nextFlight := c.nextFlight + 1 })))) := by
  rcases c.lookup_cases now k with ⟨e, he, hl, heq⟩ | ⟨he, r, hr, heq⟩
  · exact .inl ⟨e, he, hl, by simp [request, heq]⟩
  · refine .inr ⟨he, ?_⟩
    cases hf : Entries.find? k c.inFlight with
    | some flight =>
        refine .inl ⟨flight, rfl, ?_⟩
        cases r with
        | hit value => exact absurd hr (by simp [Lookup.value?])
        | expired => simp [request, heq, hf]
        | absent => simp [request, heq, hf]
    | none =>
        refine .inr ⟨rfl, ?_⟩
        cases r with
        | hit value => exact absurd hr (by simp [Lookup.value?])
        | expired => exact ⟨true, by simp [request, heq, hf]⟩
        | absent => exact ⟨false, by simp [request, heq, hf]⟩

/-- Retiring a computation does something only if it is the one in flight; then it stores a value
and drops a failure. -/
theorem complete_cases {ε : Type w} (c : Cache κ β) (now : Nat) (k : κ) (flight : Nat)
    (result : Except ε β) :
    (Entries.find? k c.inFlight ≠ some flight ∧
      c.complete now k flight result = (.stale, c)) ∨
    (Entries.find? k c.inFlight = some flight ∧
      ((∃ value, result = .ok value ∧ c.complete now k flight result =
          (.stored (c.displaced? k),
            { (c.store now k value).2 with inFlight := Entries.drop k c.inFlight })) ∨
        (∃ error, result = .error error ∧ c.complete now k flight result =
          (.failed, { c with inFlight := Entries.drop k c.inFlight })))) := by
  by_cases h : Entries.find? k c.inFlight = some flight
  · refine .inr ⟨h, ?_⟩
    cases result with
    | ok value => exact .inl ⟨value, rfl, by simp [complete, h, store, displaced?]⟩
    | error error => exact .inr ⟨error, rfl, by simp [complete, h]⟩
  · exact .inl ⟨h, by simp [complete, h]⟩

/-- **A store removes no entry but that of the key it displaces.** -/
theorem find?_store {c : Cache κ β} (hd : (Entries.names c.entries).Nodup)
    (hroom : c.entries.length ≤ c.limits.capacity) (now : Nat) (k : κ) (value : β) (k' : κ) :
    Entries.find? k' (c.store now k value).2.entries =
      if k = k' then some ⟨value, now, now⟩
      else if c.displaced? k = some k' then none
      else Entries.find? k' c.entries := by
  have hpos := c.limits.capacity_pos
  by_cases hkk : k = k'
  · simp [store, Entries.find?_cons, hkk]
  · have hhead : Entries.find? k' (c.store now k value).2.entries =
        Entries.find? k' ((Entries.drop k c.entries).take (c.limits.capacity - 1)) := by
      simp [store, Entries.find?_cons, hkk]
    rw [hhead, if_neg hkk]
    by_cases hk : k ∈ Entries.names c.entries
    · -- the key has an entry itself, which goes: all others stay
      have hlt := Entries.length_drop_lt hk
      rw [List.take_of_length_le (by omega), Entries.find?_drop]
      simp [displaced?, hk, hkk]
    · -- the key is new: the entries beyond the room for the others are at most one
      rw [Entries.drop_eq_self (Entries.find?_eq_none_iff.2 hk)]
      have hsplit := List.take_append_drop (c.limits.capacity - 1) c.entries
      have hlen : (c.entries.drop (c.limits.capacity - 1)).length ≤ 1 := by
        rw [List.length_drop]
        omega
      rcases hdrop : c.entries.drop (c.limits.capacity - 1) with _ | ⟨last, _ | ⟨_, _⟩⟩
      · rw [hdrop, List.append_nil] at hsplit
        simp [displaced?, hk, hdrop, hsplit]
      · rw [hdrop] at hsplit
        have hfind := congrArg (Entries.find? k') hsplit
        rw [Entries.find?_append, Entries.find?_cons, Entries.find?_nil] at hfind
        by_cases hlast : last.1 = k'
        · -- the names are distinct, so the one that goes is not among those that stay
          rw [← hsplit, Entries.names_append, List.nodup_append] at hd
          have hno : k' ∉ Entries.names (c.entries.take (c.limits.capacity - 1)) :=
            fun hm => hd.2.2 k' hm k' (by simp [hlast]) rfl
          simp [displaced?, hk, hdrop, hlast, Entries.find?_eq_none_iff.2 hno]
        · simpa [displaced?, hk, hdrop, hlast] using hfind
      · rw [hdrop] at hlen
        simp at hlen

theorem names_store_nodup {c : Cache κ β} (hd : (Entries.names c.entries).Nodup) (now : Nat)
    (k : κ) (value : β) : (Entries.names (c.store now k value).2.entries).Nodup := by
  have hsub : (Entries.names ((Entries.drop k c.entries).take (c.limits.capacity - 1))).Sublist
      (Entries.names (Entries.drop k c.entries)) := List.Sublist.map _ (List.take_sublist _ _)
  refine List.nodup_cons.2 ⟨fun hm => ?_, (Entries.names_drop_nodup hd).sublist hsub⟩
  exact Entries.not_mem_names_drop k c.entries (hsub.subset hm)

theorem length_store_le (c : Cache κ β) (now : Nat) (k : κ) (value : β) :
    (c.store now k value).2.entries.length ≤ c.limits.capacity := by
  have hpos := c.limits.capacity_pos
  simp only [store, List.length_cons, List.length_take]
  omega

end Cache

namespace Calls

variable {κ : Type u} {ε : Type w} {β : Type v}

/-- A waiting call can go on when its computation is ready. -/
theorem readyAt_of_computation? {s : Calls κ ε β} {w : Waiting κ} {c : Computation ε β}
    (hc : s.shared.computation? w.flight = some c) : s.readyAt w = c.readyAt := by
  simp [readyAt, Shared.readyAt?, hc]

variable [DecidableEq κ]

/-- A call finds a value, or joins the computation in flight, or starts one if there is neither. -/
theorem call_cases (s : Calls κ ε β) (k : κ) (plan : Plan ε β) :
    (∃ e, Entries.find? k s.shared.cache.entries = some e ∧
      e.isExpired s.shared.cache.limits s.now = false ∧
      s.call k plan = (.hit s.nextCall k e.value,
        { s with
          shared := { s.shared with cache := { s.shared.cache with
            entries := (k, { e with accessedAt := s.now }) ::
              Entries.drop k s.shared.cache.entries } }
          nextCall := s.nextCall + 1 })) ∨
    ((∀ e, Entries.find? k s.shared.cache.entries = some e →
        e.isExpired s.shared.cache.limits s.now = true) ∧
      ((∃ flight, Entries.find? k s.shared.cache.inFlight = some flight ∧
          s.call k plan = (.joined s.nextCall k flight,
            s.await k flight { s.shared with cache := { s.shared.cache with
              entries := Entries.drop k s.shared.cache.entries } })) ∨
        (Entries.find? k s.shared.cache.inFlight = none ∧
          s.call k plan =
            (.started s.nextCall k s.shared.cache.nextFlight ⟨s.now + plan.delay, plan.result⟩,
              s.await k s.shared.cache.nextFlight
                { cache := { s.shared.cache with
                    entries := Entries.drop k s.shared.cache.entries
                    inFlight := (k, s.shared.cache.nextFlight) :: s.shared.cache.inFlight
                    nextFlight := s.shared.cache.nextFlight + 1 }
                  computations :=
                    (s.shared.cache.nextFlight, ⟨s.now + plan.delay, plan.result⟩) ::
                      s.shared.computations })))) := by
  rcases s.shared.cache.request_cases s.now k with
    ⟨e, hf, hlive, heq⟩ | ⟨hover, ⟨flight, hflight, heq⟩ | ⟨hno, expired, heq⟩⟩
  · exact .inl ⟨e, hf, hlive, by simp [call, Shared.request, heq]⟩
  · exact .inr ⟨hover, .inl ⟨flight, hflight, by simp [call, Shared.request, heq]⟩⟩
  · exact .inr ⟨hover, .inr ⟨hno, by simp [call, Shared.request, Shared.begin_, heq]⟩⟩

/-- A call goes on when the computation that it waits for is ready: then it brings it to its end and
returns its result. -/
theorem poll_cases (s : Calls κ ε β) (call : Nat) :
    s.poll call = (.idle call, s) ∨
      ∃ w c, Entries.find? call s.waiting = some w ∧ s.shared.computation? w.flight = some c ∧
        c.readyAt ≤ s.now ∧
        ∃ completion cache,
          s.shared.cache.complete s.now w.key w.flight c.result = (completion, cache) ∧
          s.poll call = (.returned call w.key w.flight c.result completion,
            { s with
              shared := { s.shared with cache := cache }
              waiting := Entries.drop call s.waiting }) := by
  cases hw : Entries.find? call s.waiting with
  | none => exact .inl (by simp [poll, hw])
  | some w =>
      by_cases hready : s.readyAt w ≤ s.now
      · cases hc : s.shared.computation? w.flight with
        | none => exact .inl (by simp [poll, hw, hready, collect, Shared.collect, hc])
        | some c =>
            have hin : c.readyAt ≤ s.now := readyAt_of_computation? hc ▸ hready
            rcases heq : s.shared.cache.complete s.now w.key w.flight c.result with
              ⟨completion, cache⟩
            refine .inr ⟨w, c, rfl, hc, hin, completion, cache, heq, ?_⟩
            simp [poll, hw, hready, collect, Shared.collect, hc, heq]
      · exact .inl (by simp [poll, hw, hready])

/-- A call whose computation is ready goes on. -/
theorem poll_of_ready {s : Calls κ ε β} {call : Nat} {w : Waiting κ} {c : Computation ε β}
    (hw : Entries.find? call s.waiting = some w) (hc : s.shared.computation? w.flight = some c)
    (hready : c.readyAt ≤ s.now) :
    ∃ completion s', s.poll call = (.returned call w.key w.flight c.result completion, s') ∧
      s'.waiting = Entries.drop call s.waiting := by
  rcases s.poll_cases call with hidle | ⟨w', c', hw', hc', -, completion, cache, -, hpoll⟩
  · exact absurd hidle (by simp [poll, hw, readyAt_of_computation? hc, hready, collect,
      Shared.collect, hc])
  · obtain rfl := Option.some.inj (hw.symm.trans hw')
    obtain rfl := Option.some.inj (hc.symm.trans hc')
    exact ⟨completion, _, hpoll, rfl⟩

/-- A lookup finds a value and uses it, or there is nothing that is not over. -/
theorem peek_cases (s : Calls κ ε β) (k : κ) :
    (∃ e, Entries.find? k s.shared.cache.entries = some e ∧
      e.isExpired s.shared.cache.limits s.now = false ∧
      s.move (.peek k) = (.peeked k (some e.value),
        { s with shared := { s.shared with cache := { s.shared.cache with
            entries := (k, { e with accessedAt := s.now }) ::
              Entries.drop k s.shared.cache.entries } } })) ∨
    ((∀ e, Entries.find? k s.shared.cache.entries = some e →
        e.isExpired s.shared.cache.limits s.now = true) ∧
      s.move (.peek k) = (.peeked k none,
        { s with shared := { s.shared with cache := { s.shared.cache with
            entries := Entries.drop k s.shared.cache.entries } } })) := by
  rcases s.shared.cache.lookup_cases s.now k with ⟨e, hf, hlive, heq⟩ | ⟨hover, r, hr, heq⟩
  · exact .inl ⟨e, hf, hlive, by simp [move, Shared.peek, heq, Cache.Lookup.value?]⟩
  · exact .inr ⟨hover, by simp [move, Shared.peek, heq, hr]⟩

/-! ### What is found -/

/-- The value that a lookup of a key finds now. -/
def sees? (s : Calls κ ε β) (k : κ) : Option β := (s.shared.cache.lookup s.now k).1.value?

theorem sees?_of_live {s : Calls κ ε β} {k : κ} {e : Cache.Entry β}
    (hf : Entries.find? k s.shared.cache.entries = some e)
    (hlive : e.isExpired s.shared.cache.limits s.now = false) : s.sees? k = some e.value := by
  simp [sees?, Cache.lookup, hf, hlive, Cache.Lookup.value?]

theorem sees?_of_over {s : Calls κ ε β} {k : κ}
    (hover : ∀ e, Entries.find? k s.shared.cache.entries = some e →
      e.isExpired s.shared.cache.limits s.now = true) : s.sees? k = none :=
  (Cache.lookup_value?_eq_none_iff _ _ _).2 hover

end Calls

end SecretResolver
