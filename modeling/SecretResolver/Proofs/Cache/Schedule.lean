/-
**Runs on time consist of moves.**

A run lets every call go on as soon as it can.  Nothing happens in it that is not a move, so each of
its states is one that a list of moves leads to, and what is true after all lists of moves is true
in all runs.  The moves are punctual: whenever time passes, it passes no further than to the moment
at which the first waiting call can go on, and that call goes on next.

Main definitions:

* `Calls.Punctual` — moves that let waiting calls go on as soon as they can;
* `Calls.Reached`, `Calls.OnTime` — a list of moves leads to a state; a punctual one does.

Main results:

* `Calls.Reached.computation?_of_waiting` — what a call waits for is there;
* `Run.onTime_settle`, `Run.onTime_act` — waiting and events keep to punctual moves;
* `Run.onTime_after` — **every state of a run is reached by punctual moves**;
* `Run.reached_after` — so it is reached by moves.
-/

import Mathlib.Data.List.MinMax
import SecretResolver.Cache.Run
import SecretResolver.Proofs.Cache.Expiry

set_option relaxedAutoImplicit false
set_option autoImplicit false

namespace SecretResolver

universe u v w

variable {κ : Type u} {ε : Type w} {β : Type v}

namespace Calls

variable [DecidableEq κ]

/-- Waiting calls go on as soon as they can: no time passes beyond the moment at which the
computation is ready that one of them waits for. -/
def Punctual (l : CacheLimits) : List (Move κ ε β) → Prop
  | [] => True
  | m :: ms =>
      (m.duration = 0 ∨ ∀ w ∈ (after l ms).waiting,
        (after l ms).now + m.duration ≤ (after l ms).readyAt w.2) ∧ Punctual l ms

/-- A list of moves leads to a state. -/
def Reached (l : CacheLimits) (s : Calls κ ε β) : Prop :=
  ∃ ms, s = after l ms

/-- A list of punctual moves leads to a state. -/
def OnTime (l : CacheLimits) (s : Calls κ ε β) : Prop :=
  ∃ ms, Punctual l ms ∧ s = after l ms

variable {l : CacheLimits} {s : Calls κ ε β} {ms : List (Move κ ε β)}

theorem Punctual.older {since : List (Move κ ε β)} (h : Punctual l (since ++ ms)) :
    Punctual l ms := by
  induction since with
  | nil => exact h
  | cons m since ih => exact ih h.2

theorem OnTime.reached (h : OnTime l s) : Reached l s := by
  obtain ⟨ms, -, hms⟩ := h
  exact ⟨ms, hms⟩

theorem OnTime.move (h : OnTime l s) {m : Move κ ε β}
    (hm : m.duration = 0 ∨ ∀ w ∈ s.waiting, s.now + m.duration ≤ s.readyAt w.2) :
    OnTime l (s.move m).2 := by
  obtain ⟨ms, hp, rfl⟩ := h
  exact ⟨m :: ms, ⟨hm, hp⟩, rfl⟩

/-! ### Waiting calls -/

/-- Waiting calls are numbered apart. -/
theorem Reached.waiting_nodup (h : Reached l s) : (Entries.names s.waiting).Nodup := by
  obtain ⟨ms, rfl⟩ := h
  induction ms with
  | nil => exact List.nodup_nil
  | cons m ms ih =>
      change (Entries.names ((after l ms).move m).2.waiting).Nodup
      cases m with
      | call k plan =>
          rcases (after l ms).call_cases k plan with
            ⟨e, -, -, hcall⟩ | ⟨-, ⟨flight, -, hcall⟩ | ⟨-, hcall⟩⟩
          · rw [Calls.move, hcall]
            exact ih
          · rw [Calls.move, hcall]
            exact Entries.names_put_nodup ih
          · rw [Calls.move, hcall]
            exact Entries.names_put_nodup ih
      | poll call =>
          rcases (after l ms).poll_cases call with hidle | ⟨w, c, -, -, -, completion, cache, -, hpoll⟩
          · rw [Calls.move, hidle]
            exact ih
          · rw [Calls.move, hpoll]
            exact Entries.names_drop_nodup ih
      | abort call => exact Entries.names_drop_nodup ih
      | peek k => exact ih
      | invalidate k => exact ih
      | clear => exact ih
      | cleanup => exact ih
      | pass time => exact ih

/-- **What a call waits for is there.** -/
theorem Reached.computation?_of_waiting (h : Reached l s) {w : Nat × Waiting κ}
    (hw : w ∈ s.waiting) :
    Entries.find? w.1 s.waiting = some w.2 ∧ ∃ c, s.shared.computation? w.2.flight = some c := by
  have hfind := (Entries.mem_iff_find? h.waiting_nodup).1 hw
  refine ⟨hfind, ?_⟩
  obtain ⟨ms, rfl⟩ := h
  have hreflects := history_reflected l ms
  rw [hreflects.waiting] at hfind
  obtain ⟨c, hl⟩ := (history_lawful l ms).launches_of_waits? hfind
  exact ⟨c, by rw [hreflects.computations, (history_lawful l ms).computed?_eq hl]⟩

end Calls

namespace Run

variable {l : CacheLimits} {r : Run κ ε β} {w : Nat × Waiting κ}

/-! ### The call that goes on first -/

theorem next?_eq_argmin (r : Run κ ε β) :
    r.next? = r.waiting.argmin fun w => r.readyAt w.2 := by
  have hstep : r.earlier = List.argAux fun b c : Nat × Waiting κ => r.readyAt b.2 < r.readyAt c.2 := by
    funext best w
    cases best <;> rfl
  rw [next?, hstep]
  rfl

/-- The call that goes on first waits, and no other one can go on earlier. -/
theorem next?_spec (h : r.next? = some w) :
    w ∈ r.waiting ∧ ∀ w' ∈ r.waiting, r.readyAt w.2 ≤ r.readyAt w'.2 := by
  rw [next?_eq_argmin] at h
  exact ⟨List.argmin_mem h, fun w' hw' => List.le_of_mem_argmin (f := fun w => r.readyAt w.2) hw' h⟩

theorem next?_eq_none (h : r.next? = none) : r.waiting = [] := by
  rwa [next?_eq_argmin, List.argmin_eq_none] at h

variable [DecidableEq κ]

/-! ### Moves -/

theorem onTime_start (l : CacheLimits) : Calls.OnTime l (start l : Run κ ε β).toCalls :=
  ⟨[], trivial, rfl⟩

/-- A move that takes no time may be made at any time. -/
theorem onTime_move (h : Calls.OnTime l r.toCalls) (m : Calls.Move κ ε β) (hm : m.duration = 0) :
    Calls.OnTime l (r.move m).2.toCalls := Calls.OnTime.move h (.inl hm)

/-- A move by its outcome. -/
theorem onTime_of_move (h : Calls.OnTime l r.toCalls) {m : Calls.Move κ ε β}
    {what : Calls.Happening κ ε β} {r' : Run κ ε β} (heq : r.move m = (what, r'))
    (hm : m.duration = 0) : Calls.OnTime l r'.toCalls := by
  have hmove := onTime_move h m hm
  rwa [heq] at hmove

/-! ### Waiting -/

/-- Time may pass up to a moment at which no call can have gone on before. -/
theorem onTime_passTo (h : Calls.OnTime l r.toCalls) {time : Nat}
    (hle : ∀ w ∈ r.waiting, time ≤ r.readyAt w.2) : Calls.OnTime l (r.passTo time).toCalls := by
  refine Calls.OnTime.move (s := r.toCalls) (m := .pass (time - r.now)) h ?_
  rcases Nat.le_total time r.now with hpast | hfuture
  · exact .inl (Nat.sub_eq_zero_of_le hpast)
  · refine .inr fun w hw => ?_
    have hle := hle w hw
    simp only [Calls.Move.duration]
    omega

/-- The call that goes on first does so, and does not wait any more. -/
theorem onTime_finish (h : Calls.OnTime l r.toCalls) (hnext : r.next? = some w) :
    Calls.OnTime l (r.finish w).2.toCalls ∧
      (r.finish w).2.waiting = Entries.drop w.1 r.waiting := by
  obtain ⟨hw, hle⟩ := next?_spec hnext
  have hpass := onTime_passTo h hle
  obtain ⟨hfind, c, hc⟩ := h.reached.computation?_of_waiting hw
  have hready : c.readyAt ≤ (r.passTo (r.readyAt w.2)).now := by
    rw [Calls.readyAt_of_computation? hc]
    change c.readyAt ≤ r.now + (c.readyAt - r.now)
    omega
  obtain ⟨completion, s', hpoll, hwaiting⟩ := Calls.poll_of_ready
    (s := (r.passTo (r.readyAt w.2)).toCalls) hfind hc hready
  have hmove : (r.passTo (r.readyAt w.2)).move (.poll w.1) =
      (.returned w.1 w.2.key w.2.flight c.result completion, ⟨s', r.tasks⟩) := by
    simp only [move, Calls.move, hpoll]
    rfl
  have hfinish : r.finish w = (some (w.1, c.result), ⟨s', r.tasks⟩) := by
    rw [finish, hmove]
  rw [hfinish]
  exact ⟨onTime_of_move hpass hmove rfl, hwaiting⟩

/-- All calls go on that can up to some time, if they are not too many. -/
theorem onTime_settleWithin (until_ fuel : Nat) (h : Calls.OnTime l r.toCalls)
    (hfuel : r.waiting.length ≤ fuel) :
    Calls.OnTime l (settleWithin until_ fuel r).2.toCalls ∧
      ∀ w ∈ (settleWithin until_ fuel r).2.waiting,
        until_ ≤ (settleWithin until_ fuel r).2.readyAt w.2 := by
  induction fuel generalizing r with
  | zero =>
      have hnil := List.length_eq_zero_iff.1 (Nat.le_zero.1 hfuel)
      exact ⟨h, by simp [settleWithin, hnil]⟩
  | succ fuel ih =>
      unfold settleWithin
      split
      · rename_i hnone
        exact ⟨h, by simp [next?_eq_none hnone]⟩
      · rename_i w hnext
        obtain ⟨hw, hle⟩ := next?_spec hnext
        split
        · -- one call less waits
          obtain ⟨hfinish, hwaiting⟩ := onTime_finish h hnext
          have hlt := Entries.length_drop_lt (List.mem_map.2 ⟨w, hw, rfl⟩)
          exact ih hfinish (by rw [hwaiting]; omega)
        · rename_i hlate
          exact ⟨h, fun w' hw' => (Nat.le_of_not_le hlate).trans (hle w' hw')⟩

theorem onTime_settle (h : Calls.OnTime l r.toCalls) (until_ : Nat) :
    Calls.OnTime l (r.settle until_).2.toCalls := by
  obtain ⟨hsettled, hlate⟩ := onTime_settleWithin until_ _ h (Nat.le_refl r.waiting.length)
  exact onTime_passTo hsettled hlate

/-! ### Events -/

theorem onTime_get (h : Calls.OnTime l r.toCalls) (k : κ) (plan : Plan ε β) :
    Calls.OnTime l (r.get k plan).2.2.toCalls := by
  unfold get
  split <;> rename_i heq
  · exact onTime_of_move h heq rfl
  · exact onTime_settle (onTime_of_move h heq rfl) _
  · exact onTime_settle (onTime_of_move h heq rfl) _
  · exact onTime_of_move h heq rfl

theorem onTime_spawn (h : Calls.OnTime l r.toCalls) (task : String) (k : κ)
    (plan : Plan ε β) : Calls.OnTime l (r.spawn task k plan).2.toCalls := by
  -- the name of a task is no part of what moves lead to
  have hnamed : ∀ {r' : Run κ ε β} (call : Nat), Calls.OnTime l r'.toCalls →
      Calls.OnTime l
        { r' with tasks := Entries.put call task r'.tasks : Run κ ε β }.toCalls :=
    fun _ h => h
  unfold spawn
  split <;> rename_i heq
  · exact hnamed _ (onTime_of_move h heq rfl)
  · exact onTime_settle (hnamed _ (onTime_of_move h heq rfl)) _
  · exact onTime_settle (hnamed _ (onTime_of_move h heq rfl)) _
  · exact onTime_of_move h heq rfl

theorem onTime_abort (h : Calls.OnTime l r.toCalls) (task : String) :
    Calls.OnTime l (r.abort task).toCalls := by
  unfold abort
  generalize r.tasks.filter (fun t => t.2 = task) = calls
  induction calls generalizing r with
  | nil => exact h
  | cons call calls ih => exact ih (onTime_move h (.abort call.1) rfl)

/-- Every event keeps to punctual moves. -/
theorem onTime_act (h : Calls.OnTime l r.toCalls) (e : Event κ ε β) :
    Calls.OnTime l (r.act e).2.2.toCalls := by
  cases e with
  | get k plan => exact onTime_get h k plan
  | spawn task k plan => exact onTime_spawn h task k plan
  | abort task => exact onTime_abort h task
  | advance ms => exact onTime_settle h _
  | peek k => exact onTime_move h (.peek k) rfl
  | invalidate k => exact onTime_move h (.invalidate k) rfl
  | clear => exact onTime_move h .clear rfl
  | cleanup => exact onTime_move h .cleanup rfl

/-- **Every state of a run is reached by punctual moves.** -/
theorem onTime_after (l : CacheLimits) (es : List (Event κ ε β)) :
    Calls.OnTime l ((start l).after es).toCalls := by
  unfold after
  generalize hr : (start l : Run κ ε β) = r
  have h : Calls.OnTime l r.toCalls := hr ▸ onTime_start l
  clear hr
  induction es generalizing r with
  | nil => exact h
  | cons e es ih => exact ih _ (onTime_act h e)

/-- **Every state of a run is reached by moves.** -/
theorem reached_after (l : CacheLimits) (es : List (Event κ ε β)) :
    Calls.Reached l ((start l).after es).toCalls := (onTime_after l es).reached

end Run

end SecretResolver
