/-
**A cache with less room.**

Two caches are used alike; one has less room than the other, and their times of life are the same.
Their entries are not the same: what goes for want of room is not, and entries that are over may
take room in one and be gone in the other.  Still, an entry of the one with less room that is not
over is in the other, and whatever stands above it there stands above it here.  So it is no nearer
to the end in the cache with more room, and does not go there before it goes here.

Main definitions:

* `Entries.above` — the entries above a name;
* `Entries.NoLower` — entries that are live in one list are in another and stand no lower there;
* `Cache.Within` — a cache with less room and one with more that were used alike;
* `Calls.Within`, `Calls.Move.key?`, `Calls.Happening.SameBut`.

Main results:

* `Entries.NoLower.take` — **what the longer list loses at its end, the shorter one loses too**;
* `Cache.Within.complete` and the lemmas beside it — every operation keeps caches within each other;
* `Calls.Within.move` — **unless a move misses with less room and hits with more, the same happens**.
-/

import Mathlib.Data.List.Nodup
import Mathlib.Data.List.Perm.Subperm
import SecretResolver.Proofs.Cache.Operations

set_option relaxedAutoImplicit false
set_option autoImplicit false

namespace SecretResolver

universe u v w

variable {κ : Type u} {ε : Type w} {β : Type v} [DecidableEq κ]

namespace Entries

/-! ### Places -/

/-- The entries above a name. -/
def above (k : κ) (es : List (κ × β)) : List (κ × β) := es.takeWhile fun e => e.1 ≠ k

variable {k k' : κ} {v : β} {es fs : List (κ × β)}

theorem above_cons_self : above k ((k, v) :: es) = [] := by simp [above]

theorem above_cons_of_ne (h : k' ≠ k) : above k ((k', v) :: es) = (k', v) :: above k es := by
  simp [above, h]

theorem above_sublist : (above k es).Sublist es := List.takeWhile_sublist _

/-- Entries are removed from above an entry that stays as they are elsewhere. -/
theorem above_filter {p : κ × β → Bool} (h : find? k es = some v) (hp : p (k, v) = true) :
    above k (es.filter p) = (above k es).filter p := by
  induction es with
  | nil => simp at h
  | cons e es ih =>
      obtain ⟨a, w⟩ := e
      by_cases ha : a = k
      · subst ha
        obtain rfl : w = v := by simpa [find?_cons] using h
        rw [List.filter_cons_of_pos hp, above_cons_self, above_cons_self, List.filter_nil]
      · have hrest : find? k es = some v := by simpa [find?_cons, ha] using h
        rw [above_cons_of_ne ha]
        cases hpa : p (a, w) with
        | true =>
            rw [List.filter_cons_of_pos hpa, List.filter_cons_of_pos hpa, above_cons_of_ne ha,
              ih hrest]
        | false => rw [List.filter_cons_of_neg (by simp [hpa]),
            List.filter_cons_of_neg (by simp [hpa]), ih hrest]

/-- An entry is among the first ones if fewer are above it. -/
theorem find?_take (k : κ) (n : Nat) (es : List (κ × β)) :
    find? k (es.take n) = if (above k es).length < n then find? k es else none := by
  induction es generalizing n with
  | nil => simp
  | cons e es ih =>
      obtain ⟨a, w⟩ := e
      cases n with
      | zero => simp
      | succ n =>
          by_cases ha : a = k
          · subst ha
            simp [above_cons_self, find?_cons]
          · simp [above_cons_of_ne ha, find?_cons, ha, ih]

theorem above_take {n : Nat} (h : (above k es).length < n) :
    above k (es.take n) = above k es := by
  rw [above, ← List.take_takeWhile]
  exact List.take_of_length_le (Nat.le_of_lt h)

/-! ### Standing no lower -/

/-- The entries of a list that are live are in another one too, and nothing stands above them there
that does not here. -/
def NoLower (live : β → Prop) (es fs : List (κ × β)) : Prop :=
  ∀ k v, find? k es = some v → live v → find? k fs = some v ∧ above k fs ⊆ above k es

variable {live live' : β → Prop}

theorem noLower_nil : NoLower live ([] : List (κ × β)) [] := by simp [NoLower]

theorem NoLower.mono (h : NoLower live es fs) (hl : ∀ v, live' v → live v) :
    NoLower live' es fs := fun k v hf hlive => h k v hf (hl v hlive)

/-- The same entries may be removed from both lists. -/
theorem NoLower.filter (h : NoLower live es fs) (hes : (names es).Nodup) (hfs : (names fs).Nodup)
    (p : κ × β → Bool) : NoLower live (es.filter p) (fs.filter p) := by
  intro k v hf hlive
  rw [find?_filter k p hes, Option.filter_eq_some_iff] at hf
  obtain ⟨hf, hp⟩ := hf
  obtain ⟨hin, habove⟩ := h k v hf hlive
  refine ⟨by rw [find?_filter k p hfs, hin]; simp [hp], ?_⟩
  rw [above_filter hf hp, above_filter hin hp]
  exact List.filter_subset p habove

/-- Entries that are not live may be removed from the list where nothing stands lower. -/
theorem NoLower.filter_right (h : NoLower live es fs) (hfs : (names fs).Nodup)
    {p : κ × β → Bool} (hp : ∀ e, live e.2 → p e = true) : NoLower live es (fs.filter p) := by
  intro k v hf hlive
  obtain ⟨hin, habove⟩ := h k v hf hlive
  have hk : p (k, v) = true := hp (k, v) hlive
  refine ⟨by rw [find?_filter k p hfs, hin]; simp [hk], ?_⟩
  rw [above_filter hin hk]
  exact List.Subset.trans List.filter_sublist.subset habove

/-- The same entry may come to the top of both lists. -/
theorem NoLower.cons (h : NoLower live es fs) (k : κ) (v : β) :
    NoLower live ((k, v) :: es) ((k, v) :: fs) := by
  intro k' v' hf hlive
  by_cases hk : k = k'
  · subst hk
    simp only [find?_cons, if_true] at hf ⊢
    exact ⟨hf, by simp [above_cons_self]⟩
  · simp only [find?_cons, if_neg hk, above_cons_of_ne hk] at hf ⊢
    obtain ⟨hin, habove⟩ := h k' v' hf hlive
    exact ⟨hin, List.cons_subset_cons _ habove⟩

/-- **What the longer list loses at its end, the shorter one loses too.** -/
theorem NoLower.take (h : NoLower live es fs) (hfs : (names fs).Nodup) {m n : Nat} (hmn : m ≤ n) :
    NoLower live (es.take m) (fs.take n) := by
  intro k v hf hlive
  rw [find?_take] at hf
  split at hf
  · rename_i hlt
    obtain ⟨hin, habove⟩ := h k v hf hlive
    -- no entry is above it twice, so there are no more above it there than here
    have hnodup : (above k fs).Nodup := (List.Nodup.of_map _ hfs).sublist above_sublist
    have hle : (above k fs).length ≤ (above k es).length :=
      (List.subperm_of_subset hnodup habove).length_le
    rw [find?_take, if_pos (by omega), above_take hlt, above_take (by omega)]
    exact ⟨hin, habove⟩
  · simp at hf

end Entries

/-! ### Caches -/

/-- Limits with the same times of life and no more room. -/
structure CacheLimits.Narrower (l l' : CacheLimits) : Prop where
  afterWrite : l.afterWrite = l'.afterWrite
  afterAccess : l.afterAccess = l'.afterAccess
  maximumSize : l.maximumSize ≤ l'.maximumSize

namespace Cache

/-- An entry is not over. -/
def Entry.Live (l : CacheLimits) (now : Nat) (e : Entry β) : Prop := e.isExpired l now = false

theorem Entry.Live.earlier {l : CacheLimits} {now now' : Nat} {e : Entry β}
    (h : e.Live l now') (hle : now ≤ now') : e.Live l now := by
  simp only [Live, isExpired, Bool.or_eq_false_iff, decide_eq_false_iff_not] at h ⊢
  omega

/-- Of two caches that were used alike the one has less room, and what is live in it is in the other,
no nearer to the end. -/
structure Within (now : Nat) (c d : Cache κ β) : Prop where
  limits : c.limits.Narrower d.limits
  distinct : (Entries.names c.entries).Nodup
  distinct' : (Entries.names d.entries).Nodup
  noLower : Entries.NoLower (Entry.Live c.limits now) c.entries d.entries
  inFlight : c.inFlight = d.inFlight
  nextFlight : c.nextFlight = d.nextFlight

variable {now : Nat} {c d : Cache κ β}

theorem within_empty {l l' : CacheLimits} (h : l.Narrower l') (now : Nat) :
    Within now (empty l : Cache κ β) (empty l') where
  limits := h
  distinct := List.nodup_nil
  distinct' := List.nodup_nil
  noLower := Entries.noLower_nil
  inFlight := rfl
  nextFlight := rfl

namespace Within

/-- The same entries are over in both caches. -/
theorem isExpired_eq (h : Within now c d) (e : Entry β) (now' : Nat) :
    e.isExpired d.limits now' = e.isExpired c.limits now' := by
  simp [Entry.isExpired, h.limits.afterWrite, h.limits.afterAccess]

theorem capacity_le (h : Within now c d) : c.limits.capacity ≤ d.limits.capacity := by
  have hle := h.limits.maximumSize
  unfold CacheLimits.capacity
  omega

/-- What is found with less room is found with more. -/
theorem find?_of_live (h : Within now c d) {k : κ} {e : Entry β}
    (hf : Entries.find? k c.entries = some e) (hl : e.isExpired c.limits now = false) :
    Entries.find? k d.entries = some e ∧ e.isExpired d.limits now = false :=
  ⟨(h.noLower k e hf hl).1, (h.isExpired_eq e now).trans hl⟩

theorem pass (h : Within now c d) {now' : Nat} (hle : now ≤ now') : Within now' c d :=
  { h with noLower := h.noLower.mono fun _ hl => hl.earlier hle }

/-- Computations may start or go in both. -/
theorem with_flights (h : Within now c d) (flights : List (κ × Nat)) (next : Nat) :
    Within now { c with inFlight := flights, nextFlight := next }
      { d with inFlight := flights, nextFlight := next } :=
  { h with inFlight := rfl, nextFlight := rfl }

theorem drop (h : Within now c d) (k : κ) :
    Within now { c with entries := Entries.drop k c.entries }
      { d with entries := Entries.drop k d.entries } :=
  { h with
    distinct := Entries.names_drop_nodup h.distinct
    distinct' := Entries.names_drop_nodup h.distinct'
    noLower := h.noLower.filter h.distinct h.distinct' _ }

/-- A key is used in both. -/
theorem use (h : Within now c d) (k : κ) (e : Entry β) :
    Within now { c with entries := (k, e) :: Entries.drop k c.entries }
      { d with entries := (k, e) :: Entries.drop k d.entries } :=
  { h.drop k with
    distinct := List.nodup_cons.2 ⟨Entries.not_mem_names_drop k _, (h.drop k).distinct⟩
    distinct' := List.nodup_cons.2 ⟨Entries.not_mem_names_drop k _, (h.drop k).distinct'⟩
    noLower := (h.drop k).noLower.cons k e }

/-- A value that is stored in both may displace another entry in each. -/
theorem store (h : Within now c d) (k : κ) (value : β) :
    Within now (c.store now k value).2 (d.store now k value).2 :=
  { h with
    distinct := names_store_nodup h.distinct now k value
    distinct' := names_store_nodup h.distinct' now k value
    noLower := ((h.drop k).noLower.take (h.drop k).distinct'
      (Nat.sub_le_sub_right h.capacity_le 1)).cons k _ }

/-- **Retiring a computation comes to the same in both**, but for the entry that goes. -/
theorem complete (h : Within now c d) (k : κ) (flight : Nat) (result : Except ε β) :
    ((c.complete now k flight result).1 = (d.complete now k flight result).1 ∨
      ∃ displaced displaced', (c.complete now k flight result).1 = .stored displaced ∧
        (d.complete now k flight result).1 = .stored displaced') ∧
    Within now (c.complete now k flight result).2 (d.complete now k flight result).2 := by
  have hflights := h.inFlight
  rcases c.complete_cases now k flight result with
    ⟨hno, hc⟩ | ⟨hin, ⟨value, rfl, hc⟩ | ⟨error, rfl, hc⟩⟩
  · rcases d.complete_cases now k flight result with ⟨-, hd⟩ | ⟨hin', -⟩
    · rw [hc, hd]
      exact ⟨.inl rfl, h⟩
    · exact absurd (hflights ▸ hin') hno
  · rcases d.complete_cases now k flight (.ok value : Except ε β) with
      ⟨hno, -⟩ | ⟨-, ⟨value', hvalue, hd⟩ | ⟨error, herror, -⟩⟩
    · exact absurd (hflights ▸ hin) hno
    · obtain rfl := Except.ok.inj hvalue
      rw [hc, hd, ← h.inFlight]
      have hnext : c.nextFlight = d.nextFlight := h.nextFlight
      refine ⟨.inr ⟨_, _, rfl, rfl⟩, ?_⟩
      exact { h.store k value with inFlight := rfl }
    · exact absurd herror (by simp)
  · rcases d.complete_cases now k flight (.error error : Except ε β) with
      ⟨hno, -⟩ | ⟨-, ⟨value, hvalue, -⟩ | ⟨error', -, hd⟩⟩
    · exact absurd (hflights ▸ hin) hno
    · exact absurd hvalue (by simp)
    · rw [hc, hd, ← h.inFlight]
      exact ⟨.inl rfl, { h with inFlight := rfl }⟩

theorem clear (h : Within now c d) : Within now c.clear d.clear :=
  { h with
    distinct := List.nodup_nil
    distinct' := List.nodup_nil
    noLower := Entries.noLower_nil
    inFlight := rfl }

theorem invalidate (h : Within now c d) (k : κ) : Within now (c.invalidate k) (d.invalidate k) :=
  { h.drop k with inFlight := congrArg (Entries.drop k) h.inFlight }

/-- The cache with more room may be cleaned up on its own. -/
theorem cleanup_right (h : Within now c d) : Within now c (d.cleanup now) :=
  { h with
    distinct' := h.distinct'.sublist (List.filter_sublist.map _)
    noLower := h.noLower.filter_right h.distinct' fun e he => by
      have hlive : e.2.isExpired c.limits now = false := he
      simp [h.isExpired_eq, hlive] }

theorem cleanup (h : Within now c d) : Within now (c.cleanup now) (d.cleanup now) := by
  have hentries : (d.cleanup now).entries =
      d.entries.filter fun e => !e.2.isExpired c.limits now := by
    simp [Cache.cleanup, h.isExpired_eq]
  exact { h with
    distinct := h.distinct.sublist (List.filter_sublist.map _)
    distinct' := h.distinct'.sublist (List.filter_sublist.map _)
    noLower := by
      rw [hentries]
      exact h.noLower.filter h.distinct h.distinct' _ }

end Within

end Cache

/-! ### Calls -/

namespace Calls

/-- The key that a move looks up. -/
def Move.key? : Move κ ε β → Option κ
  | .call k _ => some k
  | .peek k => some k
  | _ => none

/-- A move looks up a key, and finds nothing in one cache and something in the other. -/
def Gains (s t : Calls κ ε β) (m : Move κ ε β) : Prop :=
  ∃ k, m.key? = some k ∧ s.sees? k = none ∧ ∃ value, t.sees? k = some value

/-- The same happens, but for the entry that makes room for a value. -/
def Happening.SameBut (a b : Happening κ ε β) : Prop :=
  a = b ∨ ∃ call k flight result displaced displaced',
    a = .returned call k flight result (.stored displaced) ∧
      b = .returned call k flight result (.stored displaced')

/-- Calls that are alike but for the entries of their caches, and one cache has less room. -/
structure Within (s t : Calls κ ε β) : Prop where
  now : s.now = t.now
  cache : Cache.Within s.now s.shared.cache t.shared.cache
  computations : s.shared.computations = t.shared.computations
  waiting : s.waiting = t.waiting
  nextCall : s.nextCall = t.nextCall

variable {s t : Calls κ ε β}

theorem within_start {l l' : CacheLimits} (h : l.Narrower l') :
    Within (start l : Calls κ ε β) (start l') where
  now := rfl
  cache := Cache.within_empty h 0
  computations := rfl
  waiting := rfl
  nextCall := rfl

namespace Within

/-- **A call ends alike unless it misses with less room and hits with more.** -/
theorem call (h : Within s t) (k : κ) (plan : Plan ε β) :
    (s.sees? k = none ∧ ∃ value, t.sees? k = some value) ∨
    (s.sees? k = t.sees? k ∧ (s.call k plan).1 = (t.call k plan).1 ∧
      Within (s.call k plan).2 (t.call k plan).2) := by
  obtain ⟨hnow, hcache, hcomps, hwaiting, hnext⟩ := h
  rcases s.call_cases k plan with ⟨e, hf, hl, hs⟩ | ⟨hover, hs⟩
  · -- a hit with less room is one with more
    obtain ⟨hf', hl'⟩ := hcache.find?_of_live hf hl
    rw [hnow] at hl'
    rcases t.call_cases k plan with ⟨e', hf'', -, ht⟩ | ⟨hover', -⟩
    · obtain rfl := Option.some.inj (hf'.symm.trans hf'')
      refine .inr ⟨(sees?_of_live hf hl).trans (sees?_of_live hf' hl').symm, ?_⟩
      rw [hs, ht]
      exact ⟨by rw [hnext], hnow, hnow ▸ hcache.use k _, hcomps, hwaiting, by rw [hnext]⟩
    · exact absurd (hover' _ hf') (by simp [hl'])
  · rcases t.call_cases k plan with ⟨e', hf', hl', -⟩ | ⟨hover', ht⟩
    · exact .inl ⟨sees?_of_over hover, _, sees?_of_live hf' hl'⟩
    · have hflights := hcache.inFlight
      refine .inr ⟨(sees?_of_over hover).trans (sees?_of_over hover').symm, ?_⟩
      rcases hs with ⟨flight, hin, hs⟩ | ⟨hno, hs⟩ <;>
        rcases ht with ⟨flight', hin', ht⟩ | ⟨hno', ht⟩
      · -- both join the same computation
        obtain rfl : flight = flight' := Option.some.inj (hin.symm.trans (hflights ▸ hin'))
        rw [hs, ht]
        exact ⟨by rw [hnext], hnow, hcache.drop k, hcomps, by simp [await, hwaiting, hnext],
          by simp [await, hnext]⟩
      · rw [hflights, hno'] at hin
        cases hin
      · rw [← hflights, hno] at hin'
        cases hin'
      · -- both start one
        have hnumber := hcache.nextFlight
        rw [hs, ht]
        refine ⟨by rw [hnext, hnumber, hnow], hnow, ?_, ?_, ?_, ?_⟩
        · have hstarted := (hcache.drop k).with_flights
            ((k, t.shared.cache.nextFlight) :: t.shared.cache.inFlight)
            (t.shared.cache.nextFlight + 1)
          simpa [await, hflights, hnumber] using hstarted
        · simp [await, hcomps, hnumber, hnow]
        · simp [await, hwaiting, hnext, hnumber]
        · simp [await, hnext]

theorem peek (h : Within s t) (k : κ) :
    (s.sees? k = none ∧ ∃ value, t.sees? k = some value) ∨
    (s.sees? k = t.sees? k ∧ (s.move (.peek k)).1 = (t.move (.peek k)).1 ∧
      Within (s.move (.peek k)).2 (t.move (.peek k)).2) := by
  obtain ⟨hnow, hcache, hcomps, hwaiting, hnext⟩ := h
  rcases s.peek_cases k with ⟨e, hf, hl, hs⟩ | ⟨hover, hs⟩
  · obtain ⟨hf', hl'⟩ := hcache.find?_of_live hf hl
    rw [hnow] at hl'
    rcases t.peek_cases k with ⟨e', hf'', -, ht⟩ | ⟨hover', -⟩
    · obtain rfl := Option.some.inj (hf'.symm.trans hf'')
      refine .inr ⟨(sees?_of_live hf hl).trans (sees?_of_live hf' hl').symm, ?_⟩
      rw [hs, ht]
      exact ⟨rfl, hnow, hnow ▸ hcache.use k _, hcomps, hwaiting, hnext⟩
    · exact absurd (hover' _ hf') (by simp [hl'])
  · rcases t.peek_cases k with ⟨e', hf', hl', -⟩ | ⟨hover', ht⟩
    · exact .inl ⟨sees?_of_over hover, _, sees?_of_live hf' hl'⟩
    · refine .inr ⟨(sees?_of_over hover).trans (sees?_of_over hover').symm, ?_⟩
      rw [hs, ht]
      exact ⟨rfl, hnow, hcache.drop k, hcomps, hwaiting, hnext⟩

theorem readyAt_eq (h : Within s t) (w : Waiting κ) : s.readyAt w = t.readyAt w := by
  simp [Calls.readyAt, Shared.readyAt?, Shared.computation?, h.computations, h.now]

/-- A call that goes on returns the same, whatever has to go for its value. -/
theorem collect (h : Within s t) (call : Nat) (w : Waiting κ) :
    (s.collect call w).1.SameBut (t.collect call w).1 ∧
      Within (s.collect call w).2 (t.collect call w).2 := by
  have hsame : t.shared.computation? w.flight = s.shared.computation? w.flight := by
    simp [Shared.computation?, h.computations]
  cases hc : s.shared.computation? w.flight with
  | none => simpa [Calls.collect, Shared.collect, hsame, hc] using ⟨.inl rfl, h⟩
  | some c =>
      obtain ⟨hcompletion, hwithin⟩ := h.cache.complete w.key w.flight c.result
      simp only [Calls.collect, Shared.collect, hsame, hc, ← h.now]
      refine ⟨?_, rfl, hwithin, h.computations, congrArg (Entries.drop call) h.waiting,
        h.nextCall⟩
      rcases hcompletion with heq | ⟨displaced, displaced', hd, hd'⟩
      · exact .inl (congrArg (Happening.returned call w.key w.flight c.result) heq)
      · exact .inr ⟨call, w.key, w.flight, c.result, displaced, displaced',
          congrArg (Happening.returned call w.key w.flight c.result) hd,
          congrArg (Happening.returned call w.key w.flight c.result) hd'⟩

theorem poll (h : Within s t) (call : Nat) :
    (s.poll call).1.SameBut (t.poll call).1 ∧ Within (s.poll call).2 (t.poll call).2 := by
  cases hw : Entries.find? call s.waiting with
  | none => simpa [Calls.poll, ← h.waiting, hw] using ⟨.inl rfl, h⟩
  | some w =>
      by_cases hready : s.readyAt w ≤ s.now
      · simpa [Calls.poll, ← h.waiting, ← h.readyAt_eq, ← h.now, hw, hready] using h.collect call w
      · simpa [Calls.poll, ← h.waiting, ← h.readyAt_eq, ← h.now, hw, hready] using ⟨.inl rfl, h⟩

/-- **Unless a move misses with less room and hits with more, the same happens.** -/
theorem move (h : Within s t) (m : Move κ ε β) :
    Gains s t m ∨
    (∀ k, m.key? = some k → s.sees? k = t.sees? k) ∧
      (s.move m).1.SameBut (t.move m).1 ∧ Within (s.move m).2 (t.move m).2 := by
  have hnow := h.now
  have hkeyless : m.key? = none → ∀ k, m.key? = some k → s.sees? k = t.sees? k :=
    fun hno k hk => absurd (hk.symm.trans hno) (Option.some_ne_none k)
  cases m with
  | call k plan =>
      rcases h.call k plan with hgain | ⟨hfound, hsame, hwithin⟩
      · exact .inl ⟨k, rfl, hgain⟩
      · refine .inr ⟨?_, .inl hsame, hwithin⟩
        rintro k' hk
        obtain rfl := Option.some.inj hk
        exact hfound
  | peek k =>
      rcases h.peek k with hgain | ⟨hfound, hsame, hwithin⟩
      · exact .inl ⟨k, rfl, hgain⟩
      · refine .inr ⟨?_, .inl hsame, hwithin⟩
        rintro k' hk
        obtain rfl := Option.some.inj hk
        exact hfound
  | poll call => exact .inr ⟨hkeyless rfl, h.poll call⟩
  | abort call =>
      exact .inr ⟨hkeyless rfl, .inl rfl, { h with waiting := congrArg (Entries.drop call) h.waiting }⟩
  | invalidate k => exact .inr ⟨hkeyless rfl, .inl rfl, { h with cache := h.cache.invalidate k }⟩
  | clear => exact .inr ⟨hkeyless rfl, .inl rfl, { h with cache := h.cache.clear }⟩
  | cleanup =>
      refine .inr ⟨hkeyless rfl, .inl rfl, { h with cache := ?_ }⟩
      simpa [Calls.move, Shared.cleanup, ← hnow] using h.cache.cleanup
  | pass ms =>
      exact .inr ⟨hkeyless rfl, .inl rfl, { h with
        now := congrArg (· + ms) h.now
        cache := h.cache.pass (Nat.le_add_right s.now ms) }⟩

/-- With more room the cache may be cleaned up on its own. -/
theorem cleanup_right (h : Within s t) : Within s (t.move .cleanup).2 :=
  { h with cache := by simpa [Calls.move, Shared.cleanup, ← h.now] using h.cache.cleanup_right }

end Within

end Calls

end SecretResolver
