/-
**How old an answer can be.**

A value is kept for one lifetime after it was stored, but it is stored when its computation is
retired and not when it is ready.  As long as somebody waits for the computation these times are
the same.  When all who waited for it were given up nobody retires it: it stays in flight until a
call joins it, however much later, and that call gets the old result at once.  So the age of an
answer is bounded by the lifetime and the duration of a computation only if it is counted from the
time at which the computation was started or taken up again.

The bound holds as long as calls go on as soon as they can, as they do in runs on time
(`Run.onTime_after`): a call that goes on late returns late.

Main definitions:

* `Calls.Event.readyWithin`, `Calls.Event.Answers` — how long a computation takes, and what an event
  answers;
* `Calls.Abandoned`, `Calls.Event.TakesUp` — all who waited for a computation were given up; a
  computation is started, or joined after that;
* `Calls.Attended` — a computation was taken up not long ago;
* `Calls.AgeBounded` — every answer comes from a computation that was started not long ago.

Main results:

* `Calls.Lawful.abandoned` — a computation in flight for which nobody waits is abandoned;
* `Calls.attended_of_waits?` — **what a call waits for was taken up not long ago**;
* `Calls.takenUp_of_answers` — what answers was taken up not long before that;
* `Calls.answers_takenUp` — **and if no call was given up it was started then**;
* `Calls.not_ageBounded_leftAlone` — it may have been started at any time before.
-/

import SecretResolver.Proofs.Cache.Schedule
import SecretResolver.Proofs.Cache.SingleFlight

set_option relaxedAutoImplicit false
set_option autoImplicit false

namespace SecretResolver

universe u v w

namespace Calls

variable {κ : Type u} {ε : Type w} {β : Type v}

/-! ### Answers and computations -/

/-- Whether a computation that is started is ready within some time. -/
def Event.readyWithin (d : Nat) (e : Event κ ε β) : Bool :=
  match e.what with
  | .started _ _ _ c => c.readyAt ≤ e.time + d
  | _ => true

theorem readyAt_le_of_started {d : Nat} {e : Event κ ε β} (h : e.readyWithin d = true)
    {call flight : Nat} {k : κ} {c : Computation ε β} (hw : e.what = .started call k flight c) :
    c.readyAt ≤ e.time + d := by
  simpa [Event.readyWithin, hw] using h

/-- All calls that came to wait for a computation have been given up since. -/
def Abandoned (past : List (Event κ ε β)) (k : κ) (flight : Nat) : Prop :=
  ∀ newer b older call, past = newer ++ b :: older → b.awaits? call = some ⟨k, flight⟩ →
    ∃ a ∈ newer, a.what = .aborted call

/-- A computation is started, or it is joined by a call when all that waited for it have been given
up. -/
def Event.TakesUp (past : List (Event κ ε β)) (k : κ) (flight : Nat) (e : Event κ ε β) : Prop :=
  (∃ call c, e.what = .started call k flight c) ∨
    ∃ call, e.what = .joined call k flight ∧ Abandoned past k flight

/-- A computation that is not ready late was taken up not long ago. -/
def Attended (d : Nat) (past : List (Event κ ε β)) (now : Nat) (k : κ) (flight : Nat) : Prop :=
  ∃ newer b older c, past = newer ++ b :: older ∧ b.TakesUp older k flight ∧
    Launches past k flight c ∧ c.readyAt ≤ b.time + d ∧ now ≤ b.time + d

variable [DecidableEq κ]

/-- A value is what a lookup of a key finds or what a call for the key returns. -/
def Event.Answers (k : κ) (v : β) (e : Event κ ε β) : Prop :=
  e.found? k = some v ∨ ∃ call flight completion, e.what = .returned call k flight (.ok v) completion

/-- Every answer comes from a computation that was started no longer ago than the lifetime of a
stored value and the duration of a computation. -/
def AgeBounded (l : CacheLimits) (d : Nat) (past : List (Event κ ε β)) : Prop :=
  ∀ newer e older k v, past = newer ++ e :: older → e.Answers k v →
    ∃ b ∈ older, ∃ call flight c, b.what = .started call k flight c ∧ c.result = .ok v ∧
      e.time ≤ b.time + (l.afterWrite + d)

variable {l : CacheLimits} {past : List (Event κ ε β)} {ms : List (Move κ ε β)} {d : Nat}
variable {k : κ} {flight call : Nat}

/-- Time does not go back. -/
theorem time_le_now {e : Event κ ε β} (he : e ∈ history l ms) : e.time ≤ (after l ms).now := by
  induction ms with
  | nil => exact absurd he List.not_mem_nil
  | cons m ms ih =>
      rw [now_after_cons]
      rcases List.mem_cons.1 he with rfl | he
      · exact Nat.le_add_right ..
      · exact (ih he).trans (Nat.le_add_right ..)

/-! ### Computations for which nobody waits -/

/-- A call that came to wait and does not wait any more has returned or was given up. -/
theorem Lawful.leaves_of_not_waits? {newer older : List (Event κ ε β)} {b : Event κ ε β}
    {w : Waiting κ} (h : Lawful l (newer ++ b :: older)) (hb : b.awaits? call = some w)
    (hno : waits? call (newer ++ b :: older) ≠ some w) :
    ∃ recent e between, newer = recent ++ e :: between ∧ e.leaves call = true := by
  by_contra hnone
  refine hno (latest_eq_some_iff.2 ⟨newer, b, older, rfl, hb, fun e he => ?_⟩)
  obtain ⟨recent, between, rfl⟩ := List.append_of_mem he
  constructor
  · -- a call begins once, so it does not come to wait a second time
    rw [List.append_assoc, List.cons_append] at h
    cases ha : e.awaits? call with
    | none => rfl
    | some w' =>
        have hlt := h.older.2.lt_begun (by simp) hb
        have hbegun := (h.permitted.awaits? ha).1
        exact absurd hbegun hlt.ne
  · cases hl : e.leaves call with
    | false => rfl
    | true => exact absurd ⟨recent, e, between, rfl, hl⟩ hnone

/-- **A computation in flight for which nobody waits is abandoned**: a call that had returned would
have retired it. -/
theorem Lawful.abandoned (h : Lawful l past) (hf : flying? k past = some flight)
    (hno : ∀ call, waits? call past ≠ some ⟨k, flight⟩) : Abandoned past k flight := by
  rintro newer b older call rfl hb
  obtain ⟨recent, e, between, rfl, hleaves⟩ := h.leaves_of_not_waits? hb (hno call)
  rw [List.append_assoc, List.cons_append] at h hf
  obtain ⟨time, what⟩ := e
  cases what <;> simp only [Event.leaves, decide_eq_true_eq, Bool.false_eq_true] at hleaves
  case returned call' k' flight' result completion =>
    subst hleaves
    obtain ⟨⟨b', hb', ha'⟩, -⟩ := h.older.answered rfl
    have hb'' : b ∈ between ++ b :: older := by simp
    have hsame := h.older.2.waiting_unique hb'' hb' hb ha'
    injection hsame with hk hflight
    subst hk hflight
    exact absurd hf (h.not_flying?_again (h.older.lt_launched_of_returned rfl)
      (h.older.not_flying?_of_returned rfl k))
  case aborted call' =>
    subst hleaves
    exact ⟨⟨time, .aborted call'⟩, by simp, rfl⟩

/-! ### What calls wait for -/

/-- A call that waits for a computation can go on when that is ready. -/
theorem readyAt_of_launches {c : Computation ε β} (hl : Launches (history l ms) k flight c) :
    (after l ms).readyAt ⟨k, flight⟩ = c.readyAt := by
  have hcomputed := (history_lawful l ms).computed?_eq hl
  rw [← (history_reflected l ms).computations] at hcomputed
  exact readyAt_of_computation? hcomputed

/-- A call that begins takes no time. -/
theorem duration_of_awaits? {s : Calls κ ε β} {m : Move κ ε β} {w : Waiting κ}
    (h : (s.event m).awaits? call = some w) : m.duration = 0 := by
  cases m <;> first | rfl | exact absurd h (by simp [event, move, Event.awaits?])

/-- What was taken up not long ago stays so as long as a call waits for it, if calls go on as soon as
they can. -/
theorem Attended.move (h : Attended d (history l ms) (after l ms).now k flight) {m : Move κ ε β}
    (hp : Punctual l (m :: ms)) (hw : waits? call (history l ms) = some ⟨k, flight⟩) :
    Attended d (history l (m :: ms)) (after l (m :: ms)).now k flight := by
  obtain ⟨newer, b, older, c, heq, htakes, hl, hready, hnow⟩ := h
  refine ⟨(after l ms).event m :: newer, b, older, c, congrArg _ heq,
    htakes, hl.mono (List.subset_cons_self ..), hready, ?_⟩
  rw [now_after_cons]
  rcases hp.1 with hzero | hpass
  · rwa [hzero]
  · rw [← (history_reflected l ms).waiting] at hw
    have hle := hpass _ (Entries.mem_of_find? hw)
    rw [readyAt_of_launches hl] at hle
    exact hle.trans hready

/-- A call that begins to wait for a computation takes it up, unless another one waits for it. -/
theorem attended_of_awaits? {m : Move κ ε β}
    (ih : ∀ call, waits? call (history l ms) = some ⟨k, flight⟩ →
      Attended d (history l ms) (after l ms).now k flight)
    (hp : Punctual l (m :: ms)) (hd : ∀ e ∈ history l (m :: ms), e.readyWithin d = true)
    (ha : ((after l ms).event m).awaits? call = some ⟨k, flight⟩) :
    Attended d (history l (m :: ms)) (after l (m :: ms)).now k flight := by
  have hpermitted : Permitted l (history l ms) ((after l ms).event m) :=
    (history_lawful l (m :: ms)).1
  have hnow : (after l (m :: ms)).now = ((after l ms).event m).time := by
    rw [now_after_cons, duration_of_awaits? ha]
    rfl
  have hlast : (after l ms).event m ∈ history l (m :: ms) := List.mem_cons_self ..
  rcases Event.cases_of_awaits? ha with hj | ⟨c, hs⟩
  · by_cases hwaits : ∃ call', waits? call' (history l ms) = some ⟨k, flight⟩
    · obtain ⟨call', hw⟩ := hwaits
      exact (ih call' hw).move hp hw
    · -- nobody waits for the computation, and it was started before now
      simp only [Permitted, hj] at hpermitted
      have hf := hpermitted.2.2
      have habandoned := (history_lawful l ms).abandoned hf fun call' hw => hwaits ⟨call', hw⟩
      obtain ⟨c, hl⟩ := launches_of_flying? hf
      obtain ⟨start, hstart, starter, hst⟩ := id hl
      have hready := readyAt_le_of_started (hd start (List.mem_cons_of_mem _ hstart)) hst
      have hbefore : start.time ≤ ((after l ms).event m).time := time_le_now hstart
      refine ⟨[], (after l ms).event m, history l ms, c, rfl, .inr ⟨call, hj, habandoned⟩,
        hl.mono (List.subset_cons_self ..), by omega, by omega⟩
  · have hready := readyAt_le_of_started (hd _ hlast) hs
    exact ⟨[], (after l ms).event m, history l ms, c, rfl, .inl ⟨call, c, hs⟩, ⟨_, hlast, call, hs⟩,
      hready, by omega⟩

/-- **What a call waits for was taken up not long ago.** -/
theorem attended_of_waits? (hp : Punctual l ms) (hd : ∀ e ∈ history l ms, e.readyWithin d = true)
    (hw : waits? call (history l ms) = some ⟨k, flight⟩) :
    Attended d (history l ms) (after l ms).now k flight := by
  induction ms generalizing call with
  | nil => exact nomatch hw
  | cons m ms ih =>
      have ih := fun call' => @ih call' hp.2 fun e he => hd e (List.mem_cons_of_mem _ he)
      cases ha : ((after l ms).event m).awaits? call with
      | some w =>
          have hset : waits? call (history l (m :: ms)) = some w := latest_of_set _ ha
          obtain rfl := Option.some.inj (hset.symm.trans hw)
          exact attended_of_awaits? ih hp hd ha
      | none =>
          cases hl : ((after l ms).event m).leaves call with
          | true =>
              have hnone : waits? call (history l (m :: ms)) = none := latest_of_clear _ ha hl
              exact absurd (hnone.symm.trans hw) (by simp)
          | false =>
              have hkeep : waits? call (history l (m :: ms)) = waits? call (history l ms) :=
                latest_of_keep _ ha hl
              rw [hkeep] at hw
              exact (ih call hw).move hp hw

/-! ### What answers -/

/-- What a call returns comes from a computation that was taken up not long ago. -/
theorem attended_of_returned {newer older : List (Event κ ε β)} {e : Event κ ε β}
    {result : Except ε β} {completion : Cache.Completion κ}
    (hp : Punctual l ms) (hd : ∀ e ∈ history l ms, e.readyWithin d = true)
    (h : history l ms = newer ++ e :: older)
    (hw : e.what = .returned call k flight result completion) :
    Attended d older e.time k flight ∧ Computes older k flight result := by
  have hlawful := history_lawful l ms
  rw [h] at hlawful
  have hwaits : waits? call older = some ⟨k, flight⟩ := by
    have hpermitted := hlawful.permitted
    simp only [Permitted, hw] at hpermitted
    exact hpermitted.1
  refine ⟨?_, (hlawful.older.answered hw).2⟩
  obtain ⟨since, m, before, rfl, rfl, rfl⟩ := Machine.exists_moves_of_history h
  have hold : ∀ e ∈ history l before, e.readyWithin d = true := by
    intro e he
    rw [h] at hd
    exact hd e (List.mem_append_right _ (List.mem_cons_of_mem _ he))
  exact attended_of_waits? hp.older.2 hold hwaits

/-- Without calls that are given up a computation is taken up when it is started. -/
theorem started_of_takesUp {newer older : List (Event κ ε β)} {b : Event κ ε β}
    (h : Lawful l (newer ++ b :: older)) (ht : b.TakesUp older k flight)
    (hno : ∀ a ∈ older, ∀ call, a.what ≠ .aborted call) :
    ∃ call c, b.what = .started call k flight c := by
  rcases ht with hs | ⟨call, hj, habandoned⟩
  · exact hs
  · have hpermitted := h.permitted
    simp only [Permitted, hj] at hpermitted
    obtain ⟨c, start, hstart, starter, hst⟩ := launches_of_flying? hpermitted.2.2
    obtain ⟨since, before, rfl⟩ := List.append_of_mem hstart
    obtain ⟨a, ha, haborted⟩ := habandoned since start before starter rfl
      (by simp [Event.awaits?, hst])
    exact absurd haborted (hno a (by simp [ha]) starter)

/-- What answers comes from a computation that was taken up at most the lifetime of a stored value and
the duration of a computation ago. -/
theorem takenUp_of_answers (hp : Punctual l ms) (hd : ∀ e ∈ history l ms, e.readyWithin d = true)
    {newer older : List (Event κ ε β)} {e : Event κ ε β} {v : β}
    (h : history l ms = newer ++ e :: older) (ha : e.Answers k v) :
    ∃ flight since b before, older = since ++ b :: before ∧ Computes older k flight (.ok v) ∧
      b.TakesUp before k flight ∧ e.time ≤ b.time + (l.afterWrite + d) := by
  rcases ha with hf | ⟨call, flight, completion, hw⟩
  · -- what a lookup finds was returned by the call that stored it, less than a lifetime ago
    have hlawful := history_lawful l ms
    rw [h] at hlawful
    obtain ⟨s, hs, hlasts, rfl⟩ := visible?_eq_some_iff.1 (hlawful.permitted.found? hf)
    obtain ⟨between, e', older', rfl, he', -⟩ := latest_eq_some_iff.1 hs
    obtain ⟨hwritten, call, displaced, hw⟩ := Event.returned_of_stores? he'
    have hsplit : history l ms = (newer ++ e :: between) ++ e' :: older' := by simp [h]
    obtain ⟨⟨since, b, before, c, rfl, htakes, -, -, hle⟩, hcomputes⟩ :=
      attended_of_returned hp hd hsplit hw
    have hlife := hlasts.1
    refine ⟨s.flight, between ++ e' :: since, b, before, by simp, ?_, htakes, by omega⟩
    refine hcomputes.mono fun x hx => ?_
    exact List.mem_append_right _ (List.mem_cons_of_mem _ hx)
  · obtain ⟨⟨since, b, before, c, rfl, htakes, -, -, hle⟩, hcomputes⟩ :=
      attended_of_returned hp hd h hw
    exact ⟨flight, since, b, before, rfl, hcomputes, htakes, by omega⟩

/-- **What answers comes from a computation that was taken up not long ago**: if calls go on as soon
as they can and every computation is ready in time, then whatever a lookup finds or a call returns
was computed by a computation that was started, or joined after all who waited for it had been given
up, no longer ago than the lifetime of a stored value and the duration of a computation.  If no call
was given up it was started then. -/
theorem answers_takenUp (hp : Punctual l ms) (hd : ∀ e ∈ history l ms, e.readyWithin d = true)
    {newer older : List (Event κ ε β)} {e : Event κ ε β} {v : β}
    (h : history l ms = newer ++ e :: older) (ha : e.Answers k v) :
    ∃ flight since b before, older = since ++ b :: before ∧ Computes older k flight (.ok v) ∧
      b.TakesUp before k flight ∧ e.time ≤ b.time + (l.afterWrite + d) ∧
      ((∀ a ∈ older, ∀ call, a.what ≠ .aborted call) →
        ∃ call c, b.what = .started call k flight c) := by
  have hlawful := history_lawful l ms
  rw [h] at hlawful
  obtain ⟨flight, since, b, before, rfl, hcomputes, htakes, hle⟩ := takenUp_of_answers hp hd h ha
  refine ⟨flight, since, b, before, rfl, hcomputes, htakes, hle, fun hno => ?_⟩
  exact started_of_takesUp hlawful.older.2 htakes fun a ham => hno a (by simp [ham])

/-! ### Computations that are left alone -/

/-- A call is given up, and a thousand milliseconds later another one joins its computation. -/
def leftAlone : List (Move Nat String String) :=
  [.poll 1, .call 7 ⟨5, .ok "new"⟩, .pass 1000, .abort 0, .call 7 ⟨5, .ok "old"⟩]

/-- A call goes on only a thousand milliseconds after it began. -/
def overdue : List (Move Nat String String) :=
  [.poll 0, .pass 1000, .call 7 ⟨5, .ok "old"⟩]

theorem punctual_leftAlone : Punctual ⟨2, 10, 10⟩ leftAlone :=
  ⟨.inl rfl, .inl rfl, .inr (by decide), .inl rfl, .inl rfl, trivial⟩

/-- The other call returns the old value, whose computation it took up itself. -/
theorem answers_takenUp_leftAlone :
    let older : List (Event Nat String String) :=
      [⟨1000, .joined 1 7 0⟩, ⟨0, .passed 1000⟩, ⟨0, .aborted 0⟩,
        ⟨0, .started 0 7 0 ⟨5, .ok "old"⟩⟩]
    Punctual ⟨2, 10, 10⟩ leftAlone ∧
      (∀ e ∈ history ⟨2, 10, 10⟩ leftAlone, e.readyWithin 5 = true) ∧
      history ⟨2, 10, 10⟩ leftAlone =
        ⟨1000, .returned 1 7 0 (.ok "old") (.stored none)⟩ :: older ∧
      ∃ flight since b before, older = since ++ b :: before ∧
        Computes older 7 flight (.ok "old") ∧ b.TakesUp before 7 flight ∧
        1000 ≤ b.time + (10 + 5) ∧
        ((∀ a ∈ older, ∀ call, a.what ≠ .aborted call) →
          ∃ call c, b.what = .started call 7 flight c) :=
  have hd : ∀ e ∈ history ⟨2, 10, 10⟩ leftAlone, e.readyWithin 5 = true := by decide
  ⟨punctual_leftAlone, hd, rfl,
    answers_takenUp punctual_leftAlone hd (rfl : _ = [] ++ _ :: _)
      (.inr ⟨1, 0, .stored none, rfl⟩)⟩

theorem AgeBounded.launched {e : Event κ ε β} {v : β} (h : AgeBounded l d (e :: past))
    (ha : e.Answers k v) :
    ∃ b ∈ past, b.launches = true ∧ e.time ≤ b.time + (l.afterWrite + d) := by
  obtain ⟨b, hb, call, flight, c, hw, -, hle⟩ := h [] e past k v rfl ha
  exact ⟨b, hb, launches_of_launches hw, hle⟩

/-- **An answer may come from a computation that was started at any time before**, though every
computation is ready in time: if a call was given up, although calls go on as soon as they can, and
if a call goes on late, although none was given up.  Both times the only computation was started a
thousand milliseconds before its value is returned, with ten to keep it and five to compute it. -/
theorem not_ageBounded_leftAlone :
    (¬ ∀ (l : CacheLimits) (d : Nat) (ms : List (Move Nat String String)),
      (∀ e ∈ history l ms, e.readyWithin d = true) → Punctual l ms →
        AgeBounded l d (history l ms)) ∧
    ¬ ∀ (l : CacheLimits) (d : Nat) (ms : List (Move Nat String String)),
      (∀ e ∈ history l ms, e.readyWithin d = true) →
        (∀ e ∈ history l ms, ∀ call, e.what ≠ .aborted call) →
        AgeBounded l d (history l ms) := by
  constructor
  · intro h
    have hold : ∀ b ∈ history ⟨2, 10, 10⟩ leftAlone, b.launches = true → b.time = 0 := by decide
    obtain ⟨b, hb, hl, hle⟩ :=
      (h ⟨2, 10, 10⟩ 5 leftAlone (by decide) punctual_leftAlone).launched
        (.inr ⟨1, 0, .stored none, rfl⟩ : Event.Answers 7 "old" _)
    rw [hold b (List.mem_cons_of_mem _ hb) hl] at hle
    exact absurd hle (by decide)
  · intro h
    have hno : ∀ e ∈ history ⟨2, 10, 10⟩ overdue, ∀ call, e.what ≠ .aborted call := by
      have heq : history ⟨2, 10, 10⟩ overdue = [⟨1000, .returned 0 7 0 (.ok "old") (.stored none)⟩,
          ⟨0, .passed 1000⟩, ⟨0, .started 0 7 0 ⟨5, .ok "old"⟩⟩] := rfl
      rw [heq]
      simp
    have hold : ∀ b ∈ history ⟨2, 10, 10⟩ overdue, b.launches = true → b.time = 0 := by decide
    obtain ⟨b, hb, hl, hle⟩ :=
      (h ⟨2, 10, 10⟩ 5 overdue (by decide) hno).launched
        (.inr ⟨0, 0, .stored none, rfl⟩ : Event.Answers 7 "old" _)
    rw [hold b (List.mem_cons_of_mem _ hb) hl] at hle
    exact absurd hle (by decide)

end Calls

end SecretResolver
