/-
**Every computation in flight has a call that waits for it.**

A computation goes on only as long as somebody waits for it.  The call that starts one waits for it,
and whoever returns from one takes it out of flight, if it is still the one in flight for its key.
So as long as no call is given up while it waits, what is in flight is waited for, whatever was
dropped in between, and once all calls have returned nothing is in flight.

Main definitions:

* `Calls.Patient` — no call is given up while it waits;
* `Calls.Over` — a call has returned;
* `Calls.Tended` — who waits, and for what.

Main results:

* `Calls.Tended.move` — one move, unless it gives up a call that waits;
* `Calls.tended_after` — all runs in which nobody is given up;
* `Calls.inFlight_tended` — **what is in flight is waited for**, so there is no more of it than of
  calls that wait.
-/

import Mathlib.Data.List.Nodup
import Mathlib.Data.List.Perm.Subperm
import SecretResolver.Proofs.Cache.Launched
import SecretResolver.Proofs.Cache.Orderly

set_option relaxedAutoImplicit false
set_option autoImplicit false

namespace SecretResolver

universe u v w

namespace Calls

variable {κ : Type u} {ε : Type w} {β : Type v}

/-! ### Calls that have returned -/

/-- The call that returns, at once or after it has waited. -/
def Event.returns? (e : Event κ ε β) : Option Nat :=
  match e.what with
  | .hit call _ _ => some call
  | .returned call _ _ _ _ => some call
  | _ => none

/-- A call has returned. -/
def Over (past : List (Event κ ε β)) (call : Nat) : Prop := ∃ e ∈ past, e.returns? = some call

variable {past : List (Event κ ε β)} {e : Event κ ε β}

theorem over_cons {call : Nat} :
    Over (e :: past) call ↔ e.returns? = some call ∨ Over past call := by
  simp [Over]

theorem over_of_none {call : Nat} (he : e.returns? = none) :
    Over (e :: past) call ↔ Over past call := by
  simp [over_cons, he]

variable [DecidableEq κ]

/-- No call is given up while it waits. -/
def Patient (l : CacheLimits) : List (Move κ ε β) → Prop
  | [] => True
  | m :: ms =>
      (∀ call, m = .abort call → Entries.find? call (after l ms).waiting = none) ∧ Patient l ms

/-! ### Who waits -/

/-- Who waits, and for what, after some events. -/
structure Tended (past : List (Event κ ε β)) (s : Calls κ ε β) : Prop where
  /-- The calls that wait are those that have begun and not returned. -/
  pending : ∀ call, (∃ w, Entries.find? call s.waiting = some w) ↔
    call < s.nextCall ∧ ¬ Over past call
  /-- A call that has returned has begun. -/
  begun : ∀ call, Over past call → call < s.nextCall
  /-- For every computation in flight there is a call that waits for it, under its key. -/
  owned : ∀ k flight, Entries.find? k s.shared.cache.inFlight = some flight →
    ∃ call, Entries.find? call s.waiting = some ⟨k, flight⟩

variable {s s' : Calls κ ε β} {k : κ} {flight : Nat}

theorem tended_start (l : CacheLimits) : Tended [] (start l : Calls κ ε β) where
  pending call := by simp [start]
  begun call h := by simp [Over] at h
  owned k flight h := by simp [start, Shared.empty, Cache.empty] at h

namespace Tended

/-- Computations may go out of flight at any time. -/
theorem keep (h : Tended past s) (he : e.returns? = none) (hwaiting : s'.waiting = s.waiting)
    (hnext : s'.nextCall = s.nextCall)
    (hflights : ∀ k flight, Entries.find? k s'.shared.cache.inFlight = some flight →
      Entries.find? k s.shared.cache.inFlight = some flight) : Tended (e :: past) s' where
  pending call := by rw [hwaiting, hnext, h.pending, over_of_none he]
  begun call hover := by
    rw [hnext]
    exact h.begun call ((over_of_none he).1 hover)
  owned k flight hf := by
    rw [hwaiting]
    exact h.owned k flight (hflights k flight hf)

/-- A call returns at once. -/
theorem hit (h : Tended past s) (he : e.returns? = some s.nextCall)
    (hwaiting : s'.waiting = s.waiting) (hnext : s'.nextCall = s.nextCall + 1)
    (hflights : s'.shared.cache.inFlight = s.shared.cache.inFlight) : Tended (e :: past) s' where
  pending call := by
    rw [hwaiting, hnext, h.pending, over_cons, he, Option.some.injEq, not_or]
    constructor
    · rintro ⟨hlt, hopen⟩
      exact ⟨by omega, by omega, hopen⟩
    · rintro ⟨hlt, hne, hopen⟩
      exact ⟨by omega, hopen⟩
  begun call hover := by
    rw [hnext]
    rcases over_cons.1 hover with hnew | hover
    · rw [he] at hnew
      obtain rfl := Option.some.inj hnew
      exact Nat.lt_succ_self _
    · exact (h.begun call hover).trans (Nat.lt_succ_self _)
  owned k flight hf := by
    rw [hwaiting]
    rw [hflights] at hf
    exact h.owned k flight hf

/-- A call that waits has begun. -/
theorem lt_nextCall (h : Tended past s) {call : Nat} {w : Waiting κ}
    (hw : Entries.find? call s.waiting = some w) : call < s.nextCall :=
  ((h.pending call).1 ⟨w, hw⟩).1

/-- A call begins to wait for a computation that is in flight or that it starts. -/
theorem await (h : Tended past s) (he : e.returns? = none) {shared : Shared κ ε β}
    (hflights : ∀ k' flight', Entries.find? k' shared.cache.inFlight = some flight' →
      k' = k ∧ flight' = flight ∨ Entries.find? k' s.shared.cache.inFlight = some flight') :
    Tended (e :: past) (s.await k flight shared) where
  pending call := by
    rw [over_of_none he]
    simp only [Calls.await, Entries.find?_put]
    split
    · rename_i hnew
      subst hnew
      have hopen : ¬ Over past s.nextCall := fun hover => absurd (h.begun _ hover) (by omega)
      simp [hopen]
    · rename_i hne
      rw [h.pending]
      constructor
      · rintro ⟨hlt, hopen⟩
        exact ⟨by omega, hopen⟩
      · rintro ⟨hlt, hopen⟩
        exact ⟨by omega, hopen⟩
  begun call hover := (h.begun call ((over_of_none he).1 hover)).trans (Nat.lt_succ_self _)
  owned k' flight' hf := by
    simp only [Calls.await, Entries.find?_put] at hf ⊢
    rcases hflights k' flight' hf with ⟨rfl, rfl⟩ | hf
    · exact ⟨s.nextCall, by rw [if_pos rfl]⟩
    · obtain ⟨call, hcall⟩ := h.owned k' flight' hf
      have hlt := h.lt_nextCall hcall
      exact ⟨call, by rwa [if_neg (by omega)]⟩

/-- A call that waited returns, and what it waited for is no longer in flight: nobody has to wait
for that one any more. -/
theorem leave (h : Tended past s) {call : Nat} {w : Waiting κ}
    (hw : Entries.find? call s.waiting = some w) (he : e.returns? = some call)
    (hwaiting : s'.waiting = Entries.drop call s.waiting) (hnext : s'.nextCall = s.nextCall)
    (hflights : ∀ k flight, Entries.find? k s'.shared.cache.inFlight = some flight →
      Entries.find? k s.shared.cache.inFlight = some flight ∧
        ¬ (k = w.key ∧ flight = w.flight)) : Tended (e :: past) s' where
  pending call' := by
    rw [hwaiting, hnext, Entries.find?_drop, over_cons, he, Option.some.injEq]
    split
    · rename_i hcall
      simp [hcall]
    · rename_i hother
      rw [h.pending]
      simp [hother]
  begun call' hover := by
    rw [hnext]
    rcases over_cons.1 hover with hnew | hover
    · rw [he] at hnew
      obtain rfl := Option.some.inj hnew
      exact h.lt_nextCall hw
    · exact h.begun call' hover
  owned k flight hf := by
    obtain ⟨hf, hother⟩ := hflights k flight hf
    obtain ⟨call', hcall⟩ := h.owned k flight hf
    refine ⟨call', ?_⟩
    rw [hwaiting, Entries.find?_drop, if_neg]
    · exact hcall
    · rintro rfl
      obtain rfl := Option.some.inj (hw.symm.trans hcall)
      exact hother ⟨rfl, rfl⟩

theorem call (h : Tended past s) (k : κ) (plan : Plan ε β) :
    Tended (s.event (.call k plan) :: past) (s.move (.call k plan)).2 := by
  rcases s.call_cases k plan with
    ⟨entry, -, -, hcall⟩ | ⟨-, ⟨flight, -, hcall⟩ | ⟨-, hcall⟩⟩
  · simp only [event, Calls.move, hcall]
    exact h.hit rfl rfl rfl rfl
  · simp only [event, Calls.move, hcall]
    exact h.await rfl fun _ _ hf => .inr hf
  · simp only [event, Calls.move, hcall]
    refine h.await rfl fun k' flight' hf => ?_
    rw [Entries.find?_cons] at hf
    split at hf
    · rename_i hk
      exact .inl ⟨hk.symm, (Option.some.inj hf).symm⟩
    · exact .inr hf

/-- A call that returns from the computation in flight takes it out of flight. -/
theorem poll (h : Tended past s) (call : Nat) :
    Tended (s.event (.poll call) :: past) (s.move (.poll call)).2 := by
  rcases s.poll_cases call with hidle | ⟨w, c, hw, -, -, completion, cache, heq, hpoll⟩
  · simp only [event, Calls.move, hidle]
    exact h.keep rfl rfl rfl fun _ _ hf => hf
  · simp only [event, Calls.move, hpoll]
    refine h.leave hw rfl rfl rfl fun k flight hf => ?_
    have hretired : (s.shared.retired s.now w.key w.flight c.result).cache = cache := by
      rw [Shared.retired, heq]
    rw [← hretired] at hf
    refine ⟨Shared.find?_inFlight_of_retired hf, ?_⟩
    rintro ⟨rfl, rfl⟩
    exact Shared.find?_inFlight_retired_ne s.shared s.now w.key w.flight c.result hf

/-- **One move**, unless it gives up a call that waits. -/
theorem move (h : Tended past s) {m : Move κ ε β}
    (hm : ∀ call, m = .abort call → Entries.find? call s.waiting = none) :
    Tended (s.event m :: past) (s.move m).2 := by
  cases m with
  | call k plan => exact h.call k plan
  | poll call => exact h.poll call
  | abort call =>
      exact h.keep rfl (Entries.drop_eq_self (hm call rfl)) rfl fun _ _ hf => hf
  | peek k =>
      rcases s.peek_cases k with ⟨entry, -, -, hmove⟩ | ⟨-, hmove⟩
      · simp only [event, hmove]
        exact h.keep rfl rfl rfl fun _ _ hf => hf
      · simp only [event, hmove]
        exact h.keep rfl rfl rfl fun _ _ hf => hf
  | invalidate k =>
      exact h.keep rfl rfl rfl fun _ _ hf => (Entries.find?_drop_eq_some_iff.1 hf).2
  | clear =>
      refine h.keep rfl rfl rfl fun _ _ hf => ?_
      cases hf
  | cleanup => exact h.keep rfl rfl rfl fun _ _ hf => hf
  | pass ms => exact h.keep rfl rfl rfl fun _ _ hf => hf

end Tended

/-! ### All runs -/

/-- **All runs in which no call is given up while it waits.** -/
theorem tended_after (l : CacheLimits) {ms : List (Move κ ε β)} (h : Patient l ms) :
    Tended (history l ms) (after l ms) := by
  induction ms with
  | nil => exact tended_start l
  | cons m ms ih => exact (ih h.2).move h.1

/-- What is in flight is waited for, so there is no more of it than of calls that wait. -/
theorem Tended.inFlight_le (h : Tended past s)
    (hsingle : (Entries.names s.shared.cache.inFlight).Nodup) :
    s.shared.inFlight ≤ s.waiting.length := by
  have hsub : s.shared.cache.inFlight ⊆ s.waiting.map fun w => (w.2.key, w.2.flight) := by
    rintro ⟨k, flight⟩ hf
    obtain ⟨call, hcall⟩ := h.owned k flight ((Entries.mem_iff_find? hsingle).1 hf)
    exact List.mem_map.2 ⟨_, Entries.mem_of_find? hcall, rfl⟩
  have hle := (List.subperm_of_subset (List.Nodup.of_map Prod.fst hsingle) hsub).length_le
  rwa [List.length_map] at hle

/-- **What is in flight is waited for**, as long as no call is given up while it waits: there is no
more of it than of calls that wait, and nothing once all calls have returned. -/
theorem inFlight_tended (l : CacheLimits) (ms : List (Move κ ε β)) (h : Patient l ms) :
    let s := after l ms
    (∀ f ∈ s.shared.cache.inFlight, ∃ call, Entries.find? call s.waiting = some ⟨f.1, f.2⟩) ∧
      (∀ call, (∃ w, Entries.find? call s.waiting = some w) ↔
        call < s.nextCall ∧ ¬ Over (history l ms) call) ∧
      s.shared.inFlight ≤ s.waiting.length ∧
      ((∀ call < s.nextCall, Over (history l ms) call) → s.shared.inFlight = 0) := by
  intro s
  have htended := tended_after l h
  have hsingle := (orderly_after l ms).single
  refine ⟨?_, htended.pending, htended.inFlight_le hsingle, fun hall => ?_⟩
  · rintro ⟨k, flight⟩ hf
    exact htended.owned k flight ((Entries.mem_iff_find? hsingle).1 hf)
  · -- the first call in the list would have begun and not returned
    have hnone : s.waiting.length = 0 := by
      rcases hwaiting : s.waiting with _ | ⟨⟨call, w⟩, rest⟩
      · rfl
      · have hfind : Entries.find? call s.waiting = some w := by
          simp [hwaiting, Entries.find?_cons]
        obtain ⟨hlt, hopen⟩ := (htended.pending call).1 ⟨w, hfind⟩
        exact absurd (hall call hlt) hopen
    exact Nat.le_zero.1 (hnone ▸ htended.inFlight_le hsingle)

/-- Two calls for one key share a computation, the key is dropped, and a third call starts another
one; the first call returns from a computation that is no longer in flight, a call for another key
fails, and a call that has returned is given up.  Then two calls still wait, and one computation is
in flight. -/
def overtaken : List (Move Nat String String) :=
  [.abort 0, .poll 2, .poll 0, .pass 5, .call 7 ⟨10, .ok "new"⟩, .invalidate 7,
    .call 8 ⟨3, .error "none"⟩, .call 7 ⟨9, .ok "unused"⟩, .call 7 ⟨5, .ok "old"⟩]

theorem patient_overtaken : Patient ⟨2, 60, 60⟩ overtaken := by
  simp only [overtaken, Patient, Move.abort.injEq, reduceCtorEq, false_implies, implies_true,
    and_true]
  rintro call rfl
  rfl

/-- The computation that is in flight at last is waited for by the third call. -/
theorem inFlight_tended_overtaken :
    let s := after ⟨2, 60, 60⟩ overtaken
    s.shared.cache.inFlight = [(7, 2)] ∧ Entries.names s.waiting = [1, 3] ∧
      (∀ f ∈ s.shared.cache.inFlight, ∃ call, Entries.find? call s.waiting = some ⟨f.1, f.2⟩) ∧
      (∀ call, (∃ w, Entries.find? call s.waiting = some w) ↔
        call < s.nextCall ∧ ¬ Over (history ⟨2, 60, 60⟩ overtaken) call) ∧
      s.shared.inFlight ≤ s.waiting.length ∧
      ((∀ call < s.nextCall, Over (history ⟨2, 60, 60⟩ overtaken) call) → s.shared.inFlight = 0) :=
  ⟨rfl, rfl, inFlight_tended ⟨2, 60, 60⟩ overtaken patient_overtaken⟩

end Calls

end SecretResolver
