/-
**More room, or more housekeeping, costs no hit.**

Two runs go through the same events, the second one with more room, and with the entries that are
over removed more often.  Their caches hold different entries, but the first stays within the second
(`Proofs/Cache/Room.lean`), and so they go alike as long as no lookup tells them apart.  The first
lookup that does, if one ever does, misses in the first run and hits in the second.

Main definitions:

* `Padded` — a list with more of one element in it;
* `AlikeUntil` — two runs of a system go alike up to a step at which the second gains something;
* `Run.Same`, `Run.Gains` — an event does the same in two runs; its lookup hits in the second alone.

Main results:

* `AlikeUntil.of_invariant` — a relation that is kept up to a gain makes runs go alike up to it;
* `Calls.alikeUntil_move` — so it is for moves in any order;
* `Run.Within.act` — **an event does the same, unless it misses with less room and hits with more**;
* `Run.first_difference_gains` — the theorem about runs.
-/

import SecretResolver.Cache.Run
import SecretResolver.Proofs.Cache.Room

set_option relaxedAutoImplicit false
set_option autoImplicit false

namespace SecretResolver

universe u v w

/-! ### Two runs of a system -/

section

variable {α : Type u} {σ : Type v}

/-- A list with more of one element in it, anywhere. -/
inductive Padded (x : α) : List α → List α → Prop
  | nil : Padded x [] []
  | same (a : α) {as bs : List α} : Padded x as bs → Padded x (a :: as) (a :: bs)
  | extra {as bs : List α} : Padded x as bs → Padded x as (x :: bs)

/-- Two runs of a system go alike, the second with more steps of one kind, either to their ends or
up to a step at which the second gains something. -/
inductive AlikeUntil (step : σ → α → σ) (Same Gain : σ → σ → α → Prop) (x : α) :
    σ → σ → List α → List α → Prop
  | nil (s t : σ) : AlikeUntil step Same Gain x s t [] []
  | same {s t : σ} {a : α} {as bs : List α} (h : Same s t a)
      (rest : AlikeUntil step Same Gain x (step s a) (step t a) as bs) :
      AlikeUntil step Same Gain x s t (a :: as) (a :: bs)
  | extra {s t : σ} {as bs : List α} (rest : AlikeUntil step Same Gain x s (step t x) as bs) :
      AlikeUntil step Same Gain x s t as (x :: bs)
  | gain {s t : σ} {a : α} (as bs : List α) (h : Gain s t a) :
      AlikeUntil step Same Gain x s t (a :: as) (a :: bs)

/-- **A relation that every step keeps, unless the second run gains, makes runs go alike.** -/
theorem AlikeUntil.of_invariant {step : σ → α → σ} {Same Gain : σ → σ → α → Prop} {x : α}
    {R : σ → σ → Prop}
    (hstep : ∀ s t a, R s t → Gain s t a ∨ (Same s t a ∧ R (step s a) (step t a)))
    (hextra : ∀ s t, R s t → R s (step t x)) {as bs : List α} (hp : Padded x as bs) :
    ∀ {s t : σ}, R s t → AlikeUntil step Same Gain x s t as bs := by
  induction hp with
  | nil => exact fun _ => .nil _ _
  | same a _ ih =>
      intro s t h
      rcases hstep s t a h with hgain | ⟨hsame, hnext⟩
      · exact .gain _ _ hgain
      · exact .same hsame (ih hnext)
  | extra _ ih => exact fun h => .extra (ih (hextra _ _ h))

end

variable {κ : Type u} {ε : Type w} {β : Type v} [DecidableEq κ]

/-! ### Moves in any order -/

namespace Calls

/-- A move does the same to two caches: its lookup finds the same, the same happens but for the entry
that makes room for a value, and the same computations were started. -/
structure Same (s t : Calls κ ε β) (m : Move κ ε β) : Prop where
  found : ∀ k, m.key? = some k → s.sees? k = t.sees? k
  happening : (s.move m).1.SameBut (t.move m).1
  started : (s.move m).2.shared.computations = (t.move m).2.shared.computations

/-- **Calls in any order go alike with more room**, up to a lookup that hits only there. -/
theorem alikeUntil_move {l l' : CacheLimits} (h : l.Narrower l') {ms ms' : List (Move κ ε β)}
    (hp : Padded .cleanup ms ms') :
    AlikeUntil (fun s m => (s.move m).2) Same Gains .cleanup (start l) (start l') ms ms' := by
  refine AlikeUntil.of_invariant (R := Within) ?_ ?_ hp (within_start h)
  · intro s t m hw
    rcases hw.move m with hgain | ⟨hfound, hsame, hnext⟩
    · exact .inl hgain
    · exact .inr ⟨⟨hfound, hsame, hnext.computations⟩, hnext⟩
  · exact fun s t hw => hw.cleanup_right

end Calls

/-! ### Runs on time -/

namespace Run

/-- Runs that are alike but for the entries of their caches, and one cache has less room. -/
structure Within (r r' : Run κ ε β) : Prop extends Calls.Within r.toCalls r'.toCalls where
  tasks : r.tasks = r'.tasks

variable {r r' : Run κ ε β}

theorem within_start {l l' : CacheLimits} (h : l.Narrower l') :
    Within (start l : Run κ ε β) (start l') := ⟨Calls.within_start h, rfl⟩

namespace Within

/-- A move that looks up no key does the same. -/
theorem move (h : Within r r') {m : Calls.Move κ ε β} (hm : m.key? = none) :
    (r.move m).1.SameBut (r'.move m).1 ∧ Within (r.move m).2 (r'.move m).2 := by
  rcases h.toWithin.move m with ⟨k, hk, -⟩ | ⟨-, hsame, hnext⟩
  · rw [hm] at hk
    cases hk
  · exact ⟨hsame, hnext, h.tasks⟩

/-! ### Time -/

theorem passTo (h : Within r r') (time : Nat) : Within (r.passTo time) (r'.passTo time) := by
  unfold Run.passTo
  rw [← h.now]
  exact (h.move rfl).2

theorem next?_eq (h : Within r r') : r.next? = r'.next? := by
  have hearlier : r.earlier = r'.earlier := by
    funext best w
    simp [earlier, h.readyAt_eq]
  rw [next?, next?, h.waiting, hearlier]

/-- A call that goes on ends with the same result. -/
theorem finish (h : Within r r') (w : Nat × Waiting κ) :
    (r.finish w).1 = (r'.finish w).1 ∧ Within (r.finish w).2 (r'.finish w).2 := by
  obtain ⟨hsame, hnext⟩ := (h.passTo (r.readyAt w.2)).move (m := .poll w.1) rfl
  unfold Run.finish
  rw [← h.readyAt_eq]
  revert hsame hnext
  generalize (r.passTo (r.readyAt w.2)).move (.poll w.1) = x
  generalize (r'.passTo (r.readyAt w.2)).move (.poll w.1) = y
  obtain ⟨a, s⟩ := x
  obtain ⟨b, s'⟩ := y
  rintro (heq | ⟨call, k, flight, result, displaced, displaced', ha, hb⟩) hnext
  · obtain rfl : a = b := heq
    cases a <;> exact ⟨rfl, hnext⟩
  · obtain rfl : a = _ := ha
    obtain rfl : b = _ := hb
    exact ⟨rfl, hnext⟩

/-- The same calls end up to some time. -/
theorem settleWithin (h : Within r r') (until_ fuel : Nat) :
    (Run.settleWithin until_ fuel r).1 = (Run.settleWithin until_ fuel r').1 ∧
      Within (Run.settleWithin until_ fuel r).2 (Run.settleWithin until_ fuel r').2 := by
  induction fuel generalizing r r' with
  | zero => exact ⟨rfl, h⟩
  | succ fuel ih =>
      unfold Run.settleWithin
      rw [← h.next?_eq]
      cases r.next? with
      | none => exact ⟨rfl, h⟩
      | some w =>
          simp only [← h.readyAt_eq]
          split
          · obtain ⟨hdone, hnext⟩ := h.finish w
            obtain ⟨hmore, hrest⟩ := ih hnext
            exact ⟨by rw [hdone, hmore], hrest⟩
          · exact ⟨rfl, h⟩

theorem settle (h : Within r r') (until_ : Nat) :
    (r.settle until_).1 = (r'.settle until_).1 ∧
      Within (r.settle until_).2 (r'.settle until_).2 := by
  obtain ⟨hdone, hnext⟩ := h.settleWithin until_ r.waiting.length
  rw [Run.settle, Run.settle, ← h.waiting]
  exact ⟨hdone, hnext.passTo until_⟩

/-! ### Events -/

theorem awaitCall (h : Within r r') (call flight : Nat) :
    (r.awaitCall call flight).1 = (r'.awaitCall call flight).1 ∧
      (r.awaitCall call flight).2.1 = (r'.awaitCall call flight).2.1 ∧
      Within (r.awaitCall call flight).2.2 (r'.awaitCall call flight).2.2 := by
  have hready : r'.shared.readyAt? flight = r.shared.readyAt? flight := by
    simp [Shared.readyAt?, Shared.computation?, h.computations]
  obtain ⟨hdone, hnext⟩ := h.settle ((r.shared.readyAt? flight).getD r.now)
  rw [Run.awaitCall, Run.awaitCall, hready, ← h.now]
  exact ⟨congrArg (fun done => ((Entries.find? call done).map Answer.result).getD .silent) hdone,
    hdone, hnext⟩

/-- A call that begins does the same, unless it hits only with more room. -/
theorem call (h : Within r r') (k : κ) (plan : Plan ε β) :
    (r.sees? k = none ∧ ∃ value, r'.sees? k = some value) ∨
    (r.sees? k = r'.sees? k ∧ (r.move (.call k plan)).1 = (r'.move (.call k plan)).1 ∧
      Within (r.move (.call k plan)).2 (r'.move (.call k plan)).2) := by
  rcases h.toWithin.call k plan with hgain | ⟨hfound, hsame, hnext⟩
  · exact .inl hgain
  · exact .inr ⟨hfound, hsame, hnext, h.tasks⟩

/-- A request that is waited for answers the same, unless it hits only with more room. -/
theorem get (h : Within r r') (k : κ) (plan : Plan ε β) :
    (r.sees? k = none ∧ ∃ value, r'.sees? k = some value) ∨
    (r.sees? k = r'.sees? k ∧ (r.get k plan).1 = (r'.get k plan).1 ∧
      (r.get k plan).2.1 = (r'.get k plan).2.1 ∧
      Within (r.get k plan).2.2 (r'.get k plan).2.2) := by
  rcases h.call k plan with hgain | ⟨hfound, hsame, hwithin⟩
  · exact .inl hgain
  · refine .inr ⟨hfound, ?_⟩
    unfold Run.get
    revert hsame hwithin
    generalize r.move (.call k plan) = x
    generalize r'.move (.call k plan) = y
    obtain ⟨a, s⟩ := x
    obtain ⟨b, s'⟩ := y
    rintro rfl hwithin
    cases a with
    | joined call _ flight => exact hwithin.awaitCall call flight
    | started call _ flight _ => exact hwithin.awaitCall call flight
    | _ => exact ⟨rfl, rfl, hwithin⟩

/-- So does the request of a task. -/
theorem spawn (h : Within r r') (task : String) (k : κ) (plan : Plan ε β) :
    (r.sees? k = none ∧ ∃ value, r'.sees? k = some value) ∨
    (r.sees? k = r'.sees? k ∧ (r.spawn task k plan).1 = (r'.spawn task k plan).1 ∧
      Within (r.spawn task k plan).2 (r'.spawn task k plan).2) := by
  rcases h.call k plan with hgain | ⟨hfound, hsame, hwithin⟩
  · exact .inl hgain
  · refine .inr ⟨hfound, ?_⟩
    unfold Run.spawn
    revert hsame hwithin
    generalize r.move (.call k plan) = x
    generalize r'.move (.call k plan) = y
    obtain ⟨a, s⟩ := x
    obtain ⟨b, s'⟩ := y
    rintro rfl hwithin
    have hnamed : ∀ call : Nat,
        Within { s with tasks := Entries.put call task s.tasks }
          { s' with tasks := Entries.put call task s'.tasks } := fun call =>
      ⟨hwithin.toWithin, congrArg (Entries.put call task) hwithin.tasks⟩
    cases a with
    | hit call _ _ => exact ⟨rfl, hnamed call⟩
    | joined call _ _ =>
        have hnow : s'.now = s.now := hwithin.now.symm
        simpa only [hnow] using (hnamed call).settle s.now
    | started call _ _ _ =>
        have hnow : s'.now = s.now := hwithin.now.symm
        simpa only [hnow] using (hnamed call).settle s.now
    | _ => exact ⟨rfl, hwithin⟩

theorem abort (h : Within r r') (task : String) : Within (r.abort task) (r'.abort task) := by
  unfold Run.abort
  rw [← h.tasks]
  generalize r.tasks.filter (fun t => t.2 = task) = ts
  induction ts generalizing r r' with
  | nil => exact h
  | cons t ts ih => exact ih (h.move (m := .abort t.1) rfl).2

end Within

/-- The key that an event looks up. -/
def Event.key? : Event κ ε β → Option κ
  | .get k _ => some k
  | .spawn _ k _ => some k
  | .peek k => some k
  | _ => none

/-- An event does the same in two runs: its lookup finds the same, its answer is the same, the same
tasks end with the same results, and the same computations were started. -/
structure Same (r r' : Run κ ε β) (e : Event κ ε β) : Prop where
  found : ∀ k, e.key? = some k → r.sees? k = r'.sees? k
  answer : (r.step e).1 = (r'.step e).1
  finished : (r.step e).2.1 = (r'.step e).2.1
  started : (r.step e).2.2.shared.computations = (r'.step e).2.2.shared.computations

/-- An event looks up a key, and finds nothing in the first run and something in the second. -/
def Gains (r r' : Run κ ε β) (e : Event κ ε β) : Prop :=
  ∃ k, e.key? = some k ∧ r.sees? k = none ∧ ∃ value, r'.sees? k = some value

/-- **An event does the same, unless it misses with less room and hits with more.** -/
theorem Within.act (h : Within r r') (e : Event κ ε β) :
    Gains r r' e ∨
    ((∀ k, e.key? = some k → r.sees? k = r'.sees? k) ∧ (r.act e).1 = (r'.act e).1 ∧
      (r.act e).2.1 = (r'.act e).2.1 ∧ Within (r.act e).2.2 (r'.act e).2.2) := by
  cases e with
  | get k plan =>
      rcases h.get k plan with hgain | ⟨hfound, hrest⟩
      · exact .inl ⟨k, rfl, hgain⟩
      · exact .inr ⟨fun k' hk => Option.some.inj hk ▸ hfound, hrest⟩
  | spawn task k plan =>
      rcases h.spawn task k plan with hgain | ⟨hfound, hrest⟩
      · exact .inl ⟨k, rfl, hgain⟩
      · exact .inr ⟨fun k' hk => Option.some.inj hk ▸ hfound, rfl, hrest⟩
  | peek k =>
      rcases h.peek k with hgain | ⟨hfound, -, hnext⟩
      · exact .inl ⟨k, rfl, hgain⟩
      · refine .inr ⟨fun k' hk => Option.some.inj hk ▸ hfound, ?_, rfl, hnext, h.tasks⟩
        exact congrArg Answer.found hfound
  | abort task => exact .inr ⟨nofun, rfl, rfl, h.abort task⟩
  | advance ms =>
      have hsettled := h.settle (r.now + ms)
      refine .inr ⟨nofun, rfl, ?_⟩
      simpa [Run.act, ← h.now] using hsettled
  | invalidate k => exact .inr ⟨nofun, rfl, rfl, (h.move (m := .invalidate k) rfl).2⟩
  | clear => exact .inr ⟨nofun, rfl, rfl, (h.move (m := .clear) rfl).2⟩
  | cleanup => exact .inr ⟨nofun, rfl, rfl, (h.move (m := .cleanup) rfl).2⟩

theorem Within.step (h : Within r r') (e : Event κ ε β) :
    Gains r r' e ∨ (Same r r' e ∧ Within (r.step e).2.2 (r'.step e).2.2) := by
  rcases h.act e with hgain | ⟨hfound, hanswer, hended, hnext⟩
  · exact .inl hgain
  · refine .inr ⟨⟨hfound, hanswer, ?_, hnext.computations⟩, hnext⟩
    show (r.act e).2.2.finished (r.act e).2.1 = (r'.act e).2.2.finished (r'.act e).2.1
    rw [hended, finished, finished, hnext.tasks]

/-- **More room or more housekeeping never costs a hit.**  A sequence of events runs on a cache, and
again, with any number of cleanups put in anywhere, on a cache with no less room and the same times
of life.  Up to the first lookup that hits in one run and misses in the other every event answers the
same in both, ends the same tasks with the same results and leaves the same computations started;
and that lookup, if there is one, is a miss in the first run and a hit in the second. -/
theorem first_difference_gains {m n : Nat} (hmn : m ≤ n) (afterWrite afterAccess : Nat)
    {es es' : List (Event κ ε β)} (hp : Padded .cleanup es es') :
    AlikeUntil (fun r e => (r.step e).2.2) Same Gains .cleanup
      (start ⟨m, afterWrite, afterAccess⟩) (start ⟨n, afterWrite, afterAccess⟩) es es' := by
  refine AlikeUntil.of_invariant (R := Within) ?_ ?_ hp (within_start ⟨rfl, rfl, hmn⟩)
  · exact fun r r' e h => h.step e
  · exact fun r r' h => ⟨h.cleanup_right, h.tasks⟩

/-- With room for one the second value displaces the first, which is found again with room for two,
whether or not there was a cleanup. -/
theorem first_difference_gains_secondPlace :
    1 ≤ 2 ∧
    Padded (.cleanup : Event Nat String String)
      [.get 0 ⟨1, .ok "a"⟩, .get 1 ⟨1, .ok "b"⟩, .peek 0]
      [.get 0 ⟨1, .ok "a"⟩, .cleanup, .get 1 ⟨1, .ok "b"⟩, .peek 0] ∧
    AlikeUntil (fun r e => (r.step e).2.2) Same Gains (.cleanup : Event Nat String String)
      (start ⟨1, 9, 9⟩) (start ⟨2, 9, 9⟩)
      [.get 0 ⟨1, .ok "a"⟩, .get 1 ⟨1, .ok "b"⟩, .peek 0]
      [.get 0 ⟨1, .ok "a"⟩, .cleanup, .get 1 ⟨1, .ok "b"⟩, .peek 0] ∧
    Gains
      (after (start ⟨1, 9, 9⟩) [.get 0 ⟨1, .ok "a"⟩, .get 1 ⟨1, .ok "b"⟩])
      (after (start ⟨2, 9, 9⟩) [.get 0 ⟨1, .ok "a"⟩, .cleanup, .get 1 ⟨1, .ok "b"⟩])
      (.peek 0 : Event Nat String String) := by
  have hp : Padded (.cleanup : Event Nat String String)
      [.get 0 ⟨1, .ok "a"⟩, .get 1 ⟨1, .ok "b"⟩, .peek 0]
      [.get 0 ⟨1, .ok "a"⟩, .cleanup, .get 1 ⟨1, .ok "b"⟩, .peek 0] :=
    .same _ (.extra (.same _ (.same _ .nil)))
  exact ⟨by decide, hp, first_difference_gains (by decide) 9 9 hp, 0, rfl, by rfl, "a", by rfl⟩

end Run

end SecretResolver
