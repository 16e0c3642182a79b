/-
**What the state of a cache looks like.**

Whatever is done to a cache, and in whatever order, no key has both an entry and a computation in
flight, computations are numbered apart and in the order in which they start, no entry was used
before it was written or after now, and the entries stand in the order of their last uses.  That a
key has not both is checked nowhere: a call starts a computation only after its lookup has removed
an entry that is over.

So a value that is stored never takes the place of another one for the same key, and when another
entry has to go for it, it is the one that was not used for the longest time.

Main definitions:

* `Cache.Orderly` — computations, times and the order of entries;
* `Cache.WellFormed` — all of that, and distinct keys for which there is room;
* `Cache.Admits` — what a value that is stored does to the entries.

Main results:

* `Calls.orderly_move` — **every move keeps a cache in order**;
* `Cache.WellFormed.admits_store` — what a store does to a cache that is well-formed;
* `Calls.wellFormed_after` — **a cache is well-formed in every run**, and what retiring a
  computation does to it.
-/

import SecretResolver.Proofs.Cache.Lawful

set_option relaxedAutoImplicit false
set_option autoImplicit false

namespace SecretResolver

universe u v w

namespace Cache

variable {κ : Type u} {β : Type v}

/-- Computations in flight, times and the order of entries are as they should be. -/
structure Orderly (c : Cache κ β) (now : Nat) : Prop where
  /-- No key has both an entry and a computation in flight. -/
  apart : ∀ k ∈ Entries.names c.entries, k ∉ Entries.names c.inFlight
  /-- No key has two computations in flight. -/
  single : (Entries.names c.inFlight).Nodup
  /-- No two computations in flight have the same number. -/
  numbered : (c.inFlight.map Prod.snd).Nodup
  /-- All their numbers are taken. -/
  taken : ∀ f ∈ c.inFlight, f.2 < c.nextFlight
  /-- An entry was written before it was used, and used before now. -/
  times : ∀ e ∈ c.entries, e.2.writtenAt ≤ e.2.accessedAt ∧ e.2.accessedAt ≤ now
  /-- An entry that stands further back was not used later. -/
  recent : c.entries.Pairwise fun a b => b.2.accessedAt ≤ a.2.accessedAt

/-- A cache is in order, its keys are distinct, and there is room for its entries. -/
structure WellFormed (c : Cache κ β) (now : Nat) : Prop extends Orderly c now where
  /-- No key has two entries. -/
  distinct : (Entries.names c.entries).Nodup
  /-- There are no more entries than the limits say, and one at least may be there. -/
  room : c.entries.length ≤ max 1 c.limits.maximumSize

variable {c c' : Cache κ β} {now now' : Nat} {k : κ}

/-! ### Steps of a cache -/

theorem orderly_empty (l : CacheLimits) (now : Nat) : Orderly (empty l : Cache κ β) now where
  apart := by simp [empty]
  single := by simp [empty]
  numbered := by simp [empty]
  taken := by simp [empty]
  times := by simp [empty]
  recent := by simp [empty]

/-- Entries and computations may go at any time. -/
theorem Orderly.of_sublist (h : Orderly c now) (he : c'.entries.Sublist c.entries)
    (hf : c'.inFlight.Sublist c.inFlight) (hn : c'.nextFlight = c.nextFlight) :
    Orderly c' now where
  apart k hk hk' := h.apart k ((he.map _).subset hk) ((hf.map _).subset hk')
  single := h.single.sublist (hf.map _)
  numbered := h.numbered.sublist (hf.map _)
  taken f hm := by
    rw [hn]
    exact h.taken f (hf.subset hm)
  times e hm := h.times e (he.subset hm)
  recent := h.recent.sublist he

theorem Orderly.pass (h : Orderly c now) (hle : now ≤ now') : Orderly c now' where
  apart := h.apart
  single := h.single
  numbered := h.numbered
  taken := h.taken
  times e he := ⟨(h.times e he).1, (h.times e he).2.trans hle⟩
  recent := h.recent

/-- An entry that is used or written now goes to the front. -/
theorem Orderly.front (h : Orderly c now) {e : Entry β} (hw : e.writtenAt ≤ now)
    (he : e.accessedAt = now) (hk : k ∉ Entries.names c.inFlight) :
    Orderly { c with entries := (k, e) :: c.entries } now where
  apart k' hm := by
    rcases List.mem_cons.1 hm with rfl | hm
    · exact hk
    · exact h.apart k' hm
  single := h.single
  numbered := h.numbered
  taken := h.taken
  times e' hm := by
    rcases List.mem_cons.1 hm with rfl | hm
    · exact ⟨he ▸ hw, he.le⟩
    · exact h.times e' hm
  recent := by
    refine List.pairwise_cons.2 ⟨fun e' hm => ?_, h.recent⟩
    rw [he]
    exact (h.times e' hm).2

variable [DecidableEq κ]

/-- Taking entries and computations of a key away keeps a cache in order. -/
theorem Orderly.drop_entry (h : Orderly c now) (k : κ) :
    Orderly { c with entries := Entries.drop k c.entries } now :=
  h.of_sublist List.filter_sublist (List.Sublist.refl _) rfl

theorem Orderly.use (h : Orderly c now) {e : Entry β} (hf : Entries.find? k c.entries = some e) :
    Orderly { c with entries := (k, { e with accessedAt := now }) :: Entries.drop k c.entries }
      now := by
  have hm := Entries.mem_of_find? hf
  have ht := h.times _ hm
  have hk := h.apart k (List.mem_map.2 ⟨_, hm, rfl⟩)
  exact (h.drop_entry k).front (ht.1.trans ht.2) rfl hk

/-- A computation is started for a key that has neither an entry nor a computation in flight. -/
theorem Orderly.start (h : Orderly c now) (hk : k ∉ Entries.names c.entries)
    (hf : Entries.find? k c.inFlight = none) :
    Orderly { c with
      inFlight := (k, c.nextFlight) :: c.inFlight
      nextFlight := c.nextFlight + 1 } now where
  apart k' hm := by
    rw [Entries.names_cons, List.mem_cons, not_or]
    refine ⟨?_, h.apart k' hm⟩
    rintro rfl
    exact hk hm
  single := List.nodup_cons.2 ⟨Entries.find?_eq_none_iff.1 hf, h.single⟩
  numbered := by
    rw [List.map_cons, List.nodup_cons]
    refine ⟨fun hm => ?_, h.numbered⟩
    obtain ⟨f, hf, heq⟩ := List.mem_map.1 hm
    exact absurd heq (h.taken f hf).ne
  taken f hm := by
    rcases List.mem_cons.1 hm with rfl | hm
    · exact Nat.lt_succ_self _
    · exact (h.taken f hm).trans (Nat.lt_succ_self _)
  times := h.times
  recent := h.recent

/-- What is in flight has no entry. -/
theorem Orderly.not_mem_names (h : Orderly c now) {flight : Nat}
    (hf : Entries.find? k c.inFlight = some flight) : k ∉ Entries.names c.entries := by
  intro hm
  have hno := Entries.find?_eq_none_iff.2 (h.apart k hm)
  exact absurd (hf.symm.trans hno) (by simp)

theorem Orderly.store (h : Orderly c now) (k : κ) (value : β) :
    Orderly { (c.store now k value).2 with inFlight := Entries.drop k c.inFlight } now := by
  have hkept : Orderly { c with
      entries := (Entries.drop k c.entries).take (c.limits.capacity - 1)
      inFlight := Entries.drop k c.inFlight } now :=
    h.of_sublist ((List.take_sublist _ _).trans List.filter_sublist) List.filter_sublist rfl
  exact hkept.front (e := ⟨value, now, now⟩) (Nat.le_refl now) rfl
    (Entries.not_mem_names_drop k c.inFlight)

/-! ### Storing a value -/

/-- What a value that is stored does to the entries of a cache: it takes the place of no other one
under its key, it goes to the front, and if the cache is full, and only then, another entry goes for
it, of which no other one is less recently used. -/
structure Admits (c c' : Cache κ β) (now : Nat) (k : κ) (value : β) (displaced : Option κ) :
    Prop where
  /-- The key has no entry before. -/
  absent : k ∉ Entries.names c.entries
  /-- An entry has to go just when the cache is full. -/
  full : displaced.isSome = true ↔ c.entries.length = max 1 c.limits.maximumSize
  /-- The new entry goes to the front of all but the one that has to go. -/
  entries : c'.entries =
    (k, ⟨value, now, now⟩) :: c.entries.filter fun e => displaced ≠ some e.1
  /-- The one that has to go is of another key, and was used least recently. -/
  oldest : ∀ k', displaced = some k' → k' ≠ k ∧ ∃ e, Entries.find? k' c.entries = some e ∧
    ∀ e' ∈ c.entries, e.accessedAt ≤ e'.2.accessedAt

/-- In a cache that is full the last entry has to go. -/
theorem store_full (hk : k ∉ Entries.names c.entries)
    (hfull : c.entries.length = c.limits.capacity) (now : Nat) (value : β) :
    ∃ kept last, c.entries = kept ++ [last] ∧ c.displaced? k = some last.1 ∧
      (c.store now k value).2.entries = (k, ⟨value, now, now⟩) :: kept := by
  have hpos := c.limits.capacity_pos
  have hne : c.entries ≠ [] := by
    intro hnil
    rw [hnil, List.length_nil] at hfull
    omega
  obtain ⟨kept, last, hsplit⟩ : ∃ kept last, c.entries = kept ++ [last] :=
    ⟨_, _, (List.dropLast_concat_getLast hne).symm⟩
  have hlen : c.limits.capacity - 1 = kept.length := by
    rw [← hfull, hsplit]
    simp
  refine ⟨kept, last, hsplit, ?_, ?_⟩
  · rw [displaced?, if_neg hk, hlen, hsplit, List.drop_left]
    rfl
  · simp only [store]
    rw [Entries.drop_eq_self (Entries.find?_eq_none_iff.2 hk), hlen, hsplit, List.take_left]

/-- In a cache that is not full no entry has to go. -/
theorem store_room (hk : k ∉ Entries.names c.entries)
    (hroom : c.entries.length < c.limits.capacity) (now : Nat) (value : β) :
    c.displaced? k = none ∧
      (c.store now k value).2.entries = (k, ⟨value, now, now⟩) :: c.entries := by
  have hle : c.entries.length ≤ c.limits.capacity - 1 := by omega
  constructor
  · rw [displaced?, if_neg hk, List.drop_of_length_le hle]
    rfl
  · simp only [store]
    rw [Entries.drop_eq_self (Entries.find?_eq_none_iff.2 hk), List.take_of_length_le hle]

/-- **What a store does to a cache that is well-formed.** -/
theorem WellFormed.admits_store (h : c.WellFormed now) (hk : k ∉ Entries.names c.entries)
    (value : β) : Admits c (c.store now k value).2 now k value (c.displaced? k) := by
  have hroom : c.entries.length ≤ c.limits.capacity := h.room
  rcases hroom.lt_or_eq with hlt | hfull
  · -- there is room, so nothing has to go
    obtain ⟨hnone, hentries⟩ := store_room hk hlt now value
    rw [hnone]
    exact {
      absent := hk
      full := by
        have hne : c.entries.length ≠ max 1 c.limits.maximumSize := hlt.ne
        simpa using hne
      entries := by simp [hentries]
      oldest := by simp }
  · -- the last entry goes, and all others were used no earlier
    obtain ⟨kept, last, hsplit, hsome, hentries⟩ := store_full hk hfull now value
    have hdistinct := h.distinct
    have hrecent := h.recent
    rw [hsplit, Entries.names_append, List.nodup_append] at hdistinct
    rw [hsplit, List.pairwise_append] at hrecent
    have hlast : last ∈ c.entries := by simp [hsplit]
    rw [hsome]
    exact {
      absent := hk
      full := ⟨fun _ => hfull, fun _ => rfl⟩
      entries := by
        have hkept : kept.filter (fun e => some last.1 ≠ some e.1) = kept := by
          refine List.filter_eq_self.2 fun e he => ?_
          have hne := hdistinct.2.2 e.1 (List.mem_map.2 ⟨e, he, rfl⟩) last.1 (by simp)
          simpa using hne.symm
        rw [hentries, hsplit, List.filter_append, hkept]
        simp
      oldest := by
        intro k' hk'
        obtain rfl := Option.some.inj hk'
        refine ⟨?_, last.2, (Entries.mem_iff_find? h.distinct).1 hlast, ?_⟩
        · rintro rfl
          exact hk (List.mem_map.2 ⟨last, hlast, rfl⟩)
        · intro e he
          rw [hsplit, List.mem_append, List.mem_singleton] at he
          rcases he with he | rfl
          · exact hrecent.2.2 e he last (by simp)
          · exact Nat.le_refl _ }

end Cache

namespace Calls

variable {κ : Type u} {ε : Type w} {β : Type v} [DecidableEq κ]
variable {s : Calls κ ε β} {k : κ}

/-! ### Moves -/

/-- A call keeps a cache in order: its lookup comes first, so a computation is started only for a key
without an entry. -/
theorem orderly_call (h : s.shared.cache.Orderly s.now) (k : κ) (plan : Plan ε β) :
    (s.call k plan).2.shared.cache.Orderly (s.call k plan).2.now := by
  rcases s.call_cases k plan with
    ⟨e, hf, -, hcall⟩ | ⟨-, ⟨flight, -, hcall⟩ | ⟨hno, hcall⟩⟩
  · rw [hcall]
    exact h.use hf
  · rw [hcall]
    exact h.drop_entry k
  · rw [hcall]
    exact (h.drop_entry k).start (Entries.not_mem_names_drop k _) hno

theorem orderly_poll (h : s.shared.cache.Orderly s.now) (call : Nat) :
    (s.poll call).2.shared.cache.Orderly (s.poll call).2.now := by
  rcases s.poll_cases call with hidle | ⟨w, c, -, -, -, completion, cache, heq, hpoll⟩
  · rw [hidle]
    exact h
  · rw [hpoll]
    rcases s.shared.cache.complete_cases s.now w.key w.flight c.result with
      ⟨-, hstale⟩ | ⟨-, ⟨value, -, hstored⟩ | ⟨error, -, hfailed⟩⟩
    · obtain ⟨rfl, rfl⟩ := Prod.mk.inj (heq.symm.trans hstale)
      exact h
    · obtain ⟨rfl, rfl⟩ := Prod.mk.inj (heq.symm.trans hstored)
      exact h.store w.key value
    · obtain ⟨rfl, rfl⟩ := Prod.mk.inj (heq.symm.trans hfailed)
      exact h.of_sublist (List.Sublist.refl _) List.filter_sublist rfl

theorem orderly_peek (h : s.shared.cache.Orderly s.now) (k : κ) :
    (s.move (.peek k)).2.shared.cache.Orderly (s.move (.peek k)).2.now := by
  rcases s.peek_cases k with ⟨e, hf, -, hmove⟩ | ⟨-, hmove⟩
  · rw [hmove]
    exact h.use hf
  · rw [hmove]
    exact h.drop_entry k

/-- **Every move keeps a cache in order.** -/
theorem orderly_move (h : s.shared.cache.Orderly s.now) (m : Move κ ε β) :
    (s.move m).2.shared.cache.Orderly (s.move m).2.now := by
  cases m with
  | call k plan => exact orderly_call h k plan
  | poll call => exact orderly_poll h call
  | abort call => exact h
  | peek k => exact orderly_peek h k
  | invalidate k => exact h.of_sublist List.filter_sublist List.filter_sublist rfl
  | clear => exact h.of_sublist (List.nil_sublist _) (List.nil_sublist _) rfl
  | cleanup => exact h.of_sublist List.filter_sublist (List.Sublist.refl _) rfl
  | pass ms => exact h.pass (Nat.le_add_right s.now ms)

/-- A result is returned by a call that waits for its computation, in whatever way the move is
made. -/
theorem returned_cases {m : Move κ ε β} {call flight : Nat} {result : Except ε β}
    {completion : Cache.Completion κ}
    (hm : (s.move m).1 = .returned call k flight result completion) :
    s.shared.cache.complete s.now k flight result =
      (completion, (s.move m).2.shared.cache) := by
  cases m with
  | call k' plan =>
      rcases s.call_cases k' plan with
        ⟨e, -, -, hcall⟩ | ⟨-, ⟨flight', -, hcall⟩ | ⟨-, hcall⟩⟩ <;>
        simp [move, hcall] at hm
  | poll call' =>
      rcases s.poll_cases call' with hidle | ⟨w, c, -, -, -, completion', cache, heq, hpoll⟩
      · simp [move, hidle] at hm
      · simp only [move, hpoll, Happening.returned.injEq] at hm ⊢
        obtain ⟨-, rfl, rfl, rfl, rfl⟩ := hm
        exact heq
  | peek k' => simp [move] at hm
  | _ => simp [move] at hm

/-! ### All runs -/

theorem orderly_after (l : CacheLimits) (ms : List (Move κ ε β)) :
    (after l ms).shared.cache.Orderly (after l ms).now := by
  induction ms with
  | nil => exact Cache.orderly_empty l 0
  | cons m ms ih => exact orderly_move ih m

/-- **A cache is well-formed in every run**, and the number of the next computation is that of those
started so far.  A call that retires a computation stores its value as `Cache.Admits` says, and
leaves the entries as they are if it has failed or was retired before. -/
theorem wellFormed_after (l : CacheLimits) (ms : List (Move κ ε β)) :
    (after l ms).shared.cache.WellFormed (after l ms).now ∧
    (after l ms).shared.cache.limits = l ∧
    (after l ms).shared.cache.nextFlight = launched (history l ms) ∧
    ∀ m call k flight result completion,
      ((after l ms).move m).1 = .returned call k flight result completion →
        (∀ value, result = .ok value → completion ≠ .stale → ∃ displaced,
          completion = .stored displaced ∧
            Cache.Admits (after l ms).shared.cache (after l (m :: ms)).shared.cache
              (after l ms).now k value displaced) ∧
        ((∃ error, result = .error error) ∨ completion = .stale →
          (after l (m :: ms)).shared.cache.entries = (after l ms).shared.cache.entries) := by
  have hreflects := history_reflected l ms
  have hform : (after l ms).shared.cache.WellFormed (after l ms).now := {
    toOrderly := orderly_after l ms
    distinct := hreflects.entries.distinct
    room := hreflects.limits.symm ▸ hreflects.entries.room }
  refine ⟨hform, hreflects.limits, hreflects.launched, ?_⟩
  intro m call k flight result completion hm
  have hcomplete : (after l ms).shared.cache.complete (after l ms).now k flight result =
      (completion, (after l (m :: ms)).shared.cache) := returned_cases hm
  rcases (after l ms).shared.cache.complete_cases (after l ms).now k flight result with
    ⟨-, hstale⟩ | ⟨hin, ⟨value, rfl, hstored⟩ | ⟨error, rfl, hfailed⟩⟩
  · obtain ⟨rfl, hcache⟩ := Prod.mk.inj (hcomplete.symm.trans hstale)
    exact ⟨fun _ _ hne => absurd rfl hne, fun _ => by rw [hcache]⟩
  · obtain ⟨rfl, hcache⟩ := Prod.mk.inj (hcomplete.symm.trans hstored)
    have hadmits := hform.admits_store (hform.not_mem_names hin) value
    refine ⟨?_, ?_⟩
    · rintro value' hvalue -
      obtain rfl := Except.ok.inj hvalue
      refine ⟨_, rfl, ?_⟩
      rw [hcache]
      exact ⟨hadmits.absent, hadmits.full, hadmits.entries, hadmits.oldest⟩
    · rintro (⟨error, herror⟩ | hstale)
      · exact absurd herror (by simp)
      · exact absurd hstale (by simp)
  · obtain ⟨rfl, hcache⟩ := Prod.mk.inj (hcomplete.symm.trans hfailed)
    refine ⟨?_, fun _ => by rw [hcache]⟩
    intro value hvalue
    exact absurd hvalue (by simp)

/-- There is room for two; the first key is looked up after the second one was stored, so it is the
second that goes for the third. -/
example : (after ⟨2, 9, 9⟩ [.call 3 ⟨0, .ok "c"⟩, .pass 1, .peek 1, .pass 1, .poll 1,
      .call 2 ⟨0, .ok "b"⟩, .pass 1, .poll 0, .call 1 ⟨0, .ok "a"⟩] |>.move (.poll 2)).1 =
    (.returned 2 3 2 (.ok "c") (.stored (some 2)) : Happening Nat String String) := by rfl

end Calls

end SecretResolver
