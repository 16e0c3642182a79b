/-
**A cache does not look at its values.**

Two caches are related if they hold the same keys with the same times, in the same order, and related
values, and if the same computations are in flight.  Whatever is done to both comes to the same: a key
is found in both or in none, a computation is started in both or in none, what comes of it is stored
in both or in none, and the same entry goes for it.

Main definitions:

* `Cache.Related`, `Shared.Related` — caches that differ in their values only.

Main results:

* `Cache.Related.request`, `Cache.Related.complete` — **related caches stay so, and show the same but
  for values**;
* `Shared.Related.request`, `Shared.Related.collect` — so do caches with their computations.
-/

import SecretResolver.Proofs.Secrecy.Documents

set_option relaxedAutoImplicit false
set_option autoImplicit false

namespace SecretResolver

universe u v w

/-! ### Entries -/

namespace Entries

variable {κ : Type u} {β γ : Type v} {R : β → γ → Prop}
variable {es : List (κ × β)} {fs : List (κ × γ)}

theorem Related.length_eq (h : Related R es fs) : es.length = fs.length := List.Forall₂.length_eq h

theorem Related.take (h : Related R es fs) (n : Nat) : Related R (es.take n) (fs.take n) :=
  List.forall₂_take n h

variable [DecidableEq κ]

theorem Related.drop (h : Related R es fs) (k : κ) :
    Related R (Entries.drop k es) (Entries.drop k fs) := by
  induction h with
  | nil => exact .nil
  | @cons e f es fs h _ ih =>
      unfold Entries.drop
      by_cases hk : e.1 = k
      · rw [List.filter_cons_of_neg (by simp [hk]), List.filter_cons_of_neg (by simp [← h.1, hk])]
        exact ih
      · rw [List.filter_cons_of_pos (by simp [hk]), List.filter_cons_of_pos (by simp [← h.1, hk])]
        exact .cons h ih

theorem Related.put (h : Related R es fs) (k : κ) {v : β} {w : γ} (hvw : R v w) :
    Related R (Entries.put k v es) (Entries.put k w fs) := by
  induction h with
  | nil => exact .cons ⟨rfl, hvw⟩ .nil
  | @cons e f es fs h hrest ih =>
      obtain ⟨a, x⟩ := e
      obtain ⟨b, y⟩ := f
      obtain ⟨hname, hxy⟩ := h
      obtain rfl : a = b := hname
      by_cases ha : a = k
      · simp only [Entries.put, ha, if_true]
        exact .cons ⟨rfl, hvw⟩ hrest
      · simp only [Entries.put, if_neg ha]
        exact .cons ⟨rfl, hxy⟩ ih

end Entries

/-! ### Caches -/

namespace Cache

variable {κ : Type u} {β γ : Type v} {R : β → γ → Prop}

/-- Entries with the same times and related values. -/
structure Entry.Related (R : β → γ → Prop) (e : Entry β) (f : Entry γ) : Prop where
  value : R e.value f.value
  writtenAt : e.writtenAt = f.writtenAt
  accessedAt : e.accessedAt = f.accessedAt

/-- Caches that differ in their values only, and these are related. -/
structure Related (R : β → γ → Prop) (c : Cache κ β) (d : Cache κ γ) : Prop where
  limits : c.limits = d.limits
  entries : Entries.Related (Entry.Related R) c.entries d.entries
  inFlight : c.inFlight = d.inFlight
  nextFlight : c.nextFlight = d.nextFlight

/-- Lookups that show the same, but for the value that is found. -/
inductive Lookup.Related (R : β → γ → Prop) : Lookup β → Lookup γ → Prop
  | hit {v : β} {w : γ} (h : R v w) : Lookup.Related R (.hit v) (.hit w)
  | expired : Lookup.Related R .expired .expired
  | absent : Lookup.Related R .absent .absent

/-- Requests that lead to the same, but for the value that is found. -/
inductive Request.Related (R : β → γ → Prop) : Request β → Request γ → Prop
  | hit {v : β} {w : γ} (h : R v w) : Request.Related R (.hit v) (.hit w)
  | joined (flight : Nat) : Request.Related R (.joined flight) (.joined flight)
  | started (flight : Nat) (expired : Bool) :
      Request.Related R (.started flight expired) (.started flight expired)

variable {c : Cache κ β} {d : Cache κ γ}

theorem Related.size_eq (h : Related R c d) : c.size = d.size := h.entries.length_eq

theorem Related.clear (h : Related R c d) : Related R c.clear d.clear :=
  { h with entries := .nil, inFlight := rfl }

variable [DecidableEq κ]

theorem Related.lookup (h : Related R c d) (now : Nat) (k : κ) :
    Lookup.Related R (c.lookup now k).1 (d.lookup now k).1 ∧
      Related R (c.lookup now k).2 (d.lookup now k).2 := by
  rcases h.entries.find?_cases k with ⟨hc, hd⟩ | ⟨e, f, hc, hd, hef⟩
  · simp only [Cache.lookup, hc, hd]
    exact ⟨.absent, h⟩
  · have hexpired : f.isExpired d.limits now = e.isExpired c.limits now := by
      simp [Entry.isExpired, h.limits, hef.writtenAt, hef.accessedAt]
    simp only [Cache.lookup, hc, hd, hexpired]
    split
    · exact ⟨.expired, { h with entries := h.entries.drop k }⟩
    · exact ⟨.hit hef.value, { h with
        entries := .cons ⟨rfl, hef.value, hef.writtenAt, rfl⟩ (h.entries.drop k) }⟩

/-- **A request leads to the same in both.** -/
theorem Related.request (h : Related R c d) (now : Nat) (k : κ) :
    Request.Related R (c.request now k).1 (d.request now k).1 ∧
      Related R (c.request now k).2 (d.request now k).2 := by
  obtain ⟨hlookup, hafter⟩ := h.lookup now k
  unfold Cache.request
  rcases hc : c.lookup now k with ⟨a, c⟩
  rcases hd : d.lookup now k with ⟨b, d⟩
  rw [hc, hd] at hlookup hafter
  have hflights : c.inFlight = d.inFlight := hafter.inFlight
  have hnext : c.nextFlight = d.nextFlight := hafter.nextFlight
  cases hlookup with
  | hit hvw => exact ⟨.hit hvw, hafter⟩
  | expired =>
      simp only [← hflights, ← hnext]
      split
      · exact ⟨.joined _, hafter⟩
      · exact ⟨.started _ _, { hafter with inFlight := rfl, nextFlight := rfl }⟩
  | absent =>
      simp only [← hflights, ← hnext]
      split
      · exact ⟨.joined _, hafter⟩
      · exact ⟨.started _ _, { hafter with inFlight := rfl, nextFlight := rfl }⟩

theorem displaced?_eq_of_names (c : Cache κ β) (k : κ) : c.displaced? k =
    if k ∈ Entries.names c.entries then some k
    else ((Entries.names c.entries).drop (c.limits.capacity - 1)).head? := by
  simp [displaced?, Entries.names, ← List.map_drop]

theorem Related.store (h : Related R c d) (now : Nat) (k : κ) {v : β} {w : γ} (hvw : R v w) :
    (c.store now k v).1 = (d.store now k w).1 ∧
      Related R (c.store now k v).2 (d.store now k w).2 := by
  refine ⟨?_, { h with entries := ?_ }⟩
  · simp only [Cache.store, displaced?_eq_of_names, h.entries.names_eq, h.limits]
  · simp only [Cache.store, h.limits]
    exact .cons ⟨rfl, hvw, rfl, rfl⟩ ((h.entries.drop k).take _)

/-- **Retiring a computation comes to the same in both.** -/
theorem Related.complete {ε : Type w} {x : Except ε β} {y : Except ε γ} (h : Related R c d)
    (now : Nat) (k : κ) (flight : Nat) (hxy : AlikeResults R x y) :
    (c.complete now k flight x).1 = (d.complete now k flight y).1 ∧
      Related R (c.complete now k flight x).2 (d.complete now k flight y).2 := by
  have hretired : Related R { c with inFlight := Entries.drop k c.inFlight }
      { d with inFlight := Entries.drop k d.inFlight } :=
    { h with inFlight := congrArg (Entries.drop k) h.inFlight }
  unfold Cache.complete
  rw [← h.inFlight]
  split
  · rw [← h.inFlight] at hretired
    cases hxy with
    | ok hvw =>
        obtain ⟨hdisplaced, hstored⟩ := hretired.store now k hvw
        exact ⟨congrArg Completion.stored hdisplaced, hstored⟩
    | error e => exact ⟨rfl, hretired⟩
  · exact ⟨rfl, h⟩

end Cache

/-! ### Caches with their computations -/

namespace Shared

variable {κ : Type u} {ε : Type w} {β γ : Type v} {R : β → γ → Prop}

/-- Computations that are ready at the same time, with results that are alike. -/
structure AlikeComputations (R : β → γ → Prop) (c : Computation ε β) (d : Computation ε γ) :
    Prop where
  readyAt : c.readyAt = d.readyAt
  result : AlikeResults R c.result d.result

/-- Caches and computations that differ in values only, and these are related. -/
structure Related (R : β → γ → Prop) (s : Shared κ ε β) (t : Shared κ ε γ) : Prop where
  cache : Cache.Related R s.cache t.cache
  computations : Entries.Related (AlikeComputations R) s.computations t.computations

variable {s : Shared κ ε β} {t : Shared κ ε γ}

namespace Related

theorem clear (h : Related R s t) : Related R s.clear t.clear := { h with cache := h.cache.clear }

theorem begin_ (h : Related R s t) (flight : Nat) {c : Computation ε β} {d : Computation ε γ}
    (hcd : AlikeComputations R c d) : Related R (s.begin_ flight c) (t.begin_ flight d) :=
  { h with computations := .cons ⟨rfl, hcd⟩ h.computations }

theorem readyAt?_eq (h : Related R s t) (flight : Nat) : s.readyAt? flight = t.readyAt? flight := by
  rcases h.computations.find?_cases flight with ⟨hs, ht⟩ | ⟨c, d, hs, ht, hcd⟩
  · simp [Shared.readyAt?, Shared.computation?, hs, ht]
  · simp [Shared.readyAt?, Shared.computation?, hs, ht, hcd.readyAt]

variable [DecidableEq κ]

/-- **A key is asked for in both with the same outcome.** -/
theorem request (h : Related R s t) (now : Nat) (k : κ) :
    ∃ q q' s' t', s.request now k = (q, s') ∧ t.request now k = (q', t') ∧
      Cache.Request.Related R q q' ∧ Related R s' t' := by
  obtain ⟨hrequest, hcache⟩ := h.cache.request now k
  exact ⟨_, _, _, _, rfl, rfl, hrequest, hcache, h.computations⟩

/-- **The result of a computation is collected in both or in none**, it is alike in both, and it is
retired in the same way. -/
theorem collect (h : Related R s t) (now : Nat) (k : κ) (flight : Nat) :
    (s.collect now k flight = (none, s) ∧ t.collect now k flight = (none, t)) ∨
      ∃ x y completion s' t', s.collect now k flight = (some (x, completion), s') ∧
        t.collect now k flight = (some (y, completion), t') ∧ AlikeResults R x y ∧
        Related R s' t' := by
  rcases h.computations.find?_cases flight with ⟨hs, ht⟩ | ⟨c, d, hs, ht, hcd⟩
  · exact .inl ⟨by simp [Shared.collect, Shared.computation?, hs],
      by simp [Shared.collect, Shared.computation?, ht]⟩
  · obtain ⟨hcompletion, hcache⟩ := h.cache.complete now k flight hcd.result
    refine .inr ⟨c.result, d.result, (s.cache.complete now k flight c.result).1,
      { s with cache := (s.cache.complete now k flight c.result).2 },
      { t with cache := (t.cache.complete now k flight d.result).2 }, ?_, ?_, hcd.result,
      hcache, h.computations⟩
    · simp [Shared.collect, Shared.computation?, hs]
    · simp [Shared.collect, Shared.computation?, ht, hcompletion]

end Related

end Shared

end SecretResolver
