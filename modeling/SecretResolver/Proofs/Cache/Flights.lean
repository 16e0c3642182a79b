/-
**Computations in a lawful history.**

Computations are numbered in the order in which they are started, so a number stands for one
computation for one key through a whole history, and a computation that is no longer in flight never
is again.  Calls have numbers of their own, and each waits for one computation at most.

Main definitions:

* `Calls.Computes` — a result is that of a computation started within a part of a history.

Main results:

* `Calls.Lawful.lt_launched`, `Calls.Lawful.launched_le` — a computation started within a part of a
  history has a number that was free before and is taken after;
* `Calls.Lawful.computed?_eq`, `Calls.Lawful.launches_unique` — **a number stands for one
  computation**;
* `Calls.Lawful.not_flying?_again` — **what is no longer in flight never is again**;
* `Calls.Lawful.launches_of_waits?` — a call waits for a computation that was started for its key;
* `Calls.Permitted.flying?_of_ne_stale`, `Calls.Lawful.computes_of_returned` — what a call returns,
  and whose result is not passed over.
-/

import SecretResolver.Proofs.Cache.Lawful

set_option relaxedAutoImplicit false
set_option autoImplicit false

namespace SecretResolver

universe u v w

namespace Calls

variable {κ : Type u} {ε : Type w} {β : Type v}
variable {l : CacheLimits} {past newer older : List (Event κ ε β)} {k k' : κ} {flight : Nat}
variable {c c' : Computation ε β}

/-! ### What is started within a part of a history -/

theorem launches_append : Launches (newer ++ older) k flight c ↔
    Launches newer k flight c ∨ Launches older k flight c := by
  constructor
  · rintro ⟨e, he, call, hw⟩
    rcases List.mem_append.1 he with he | he
    · exact .inl ⟨e, he, call, hw⟩
    · exact .inr ⟨e, he, call, hw⟩
  · rintro (h | h)
    · exact h.mono (List.subset_append_left ..)
    · exact h.mono (List.subset_append_right ..)

theorem launches_cons {e : Event κ ε β} : Launches (e :: past) k flight c ↔
    (∃ call, e.what = .started call k flight c) ∨ Launches past k flight c := by
  constructor
  · rintro ⟨e', he, call, hw⟩
    rcases List.mem_cons.1 he with rfl | he
    · exact .inl ⟨call, hw⟩
    · exact .inr ⟨e', he, call, hw⟩
  · rintro (⟨call, hw⟩ | h)
    · exact ⟨e, List.mem_cons_self .., call, hw⟩
    · exact h.mono (List.subset_cons_self ..)

theorem launched_append (newer older : List (Event κ ε β)) :
    launched (newer ++ older) = launched newer + launched older := List.countP_append ..

theorem launches_of_launches {e : Event κ ε β} {call : Nat}
    (h : e.what = .started call k flight c) : e.launches = true := by
  simp [Event.launches, h]

theorem launched_le_launched_cons (e : Event κ ε β) (past : List (Event κ ε β)) :
    launched past ≤ launched (e :: past) := by
  simp only [launched, List.countP_cons]
  omega

/-- A result is that of a computation for a key that was started under a number within a part of a
history. -/
def Computes (part : List (Event κ ε β)) (k : κ) (flight : Nat) (result : Except ε β) : Prop :=
  ∃ c, Launches part k flight c ∧ c.result = result

theorem Computes.mono {part whole : List (Event κ ε β)} {k : κ} {flight : Nat}
    {result : Except ε β} (h : Computes part k flight result) (hsub : part ⊆ whole) :
    Computes whole k flight result := by
  obtain ⟨c, hc, hr⟩ := h
  exact ⟨c, hc.mono hsub, hr⟩

/-- A call begins to wait when it joins a computation or starts one. -/
theorem Event.cases_of_awaits? {e : Event κ ε β} {call : Nat} {w : Waiting κ}
    (h : e.awaits? call = some w) :
    e.what = .joined call w.key w.flight ∨ ∃ c, e.what = .started call w.key w.flight c := by
  obtain ⟨time, what⟩ := e
  cases what <;> simp only [Event.awaits?, reduceCtorEq] at h
  case joined call' k' flight' =>
    split at h
    · rename_i hc
      obtain rfl := Option.some.inj h
      exact .inl (by rw [hc])
    · exact absurd h (by simp)
  case started call' k' flight' c =>
    split at h
    · rename_i hc
      obtain rfl := Option.some.inj h
      exact .inr ⟨c, by rw [hc]⟩
    · exact absurd h (by simp)

variable [DecidableEq κ]

/-! ### Numbers -/

theorem Permitted.flight_eq {e : Event κ ε β} {call : Nat} (h : Permitted l past e)
    (hw : e.what = .started call k flight c) : flight = launched past := by
  simp only [Permitted, hw] at h
  exact h.2.2.2

/-- A computation that was started has a number that is taken. -/
theorem Lawful.lt_launched (h : Lawful l past) (hl : Launches past k flight c) :
    flight < launched past := by
  induction past with
  | nil =>
      obtain ⟨_, he, _⟩ := hl
      exact absurd he (by simp)
  | cons e past ih =>
      rcases launches_cons.1 hl with ⟨call, hw⟩ | hl
      · rw [launched_of_launches past (launches_of_launches hw), h.1.flight_eq hw]
        omega
      · exact (ih h.2 hl).trans_le (launched_le_launched_cons e past)

/-- A computation that was started since some event has a number that was free then. -/
theorem Lawful.launched_le (h : Lawful l (newer ++ older)) (hl : Launches newer k flight c) :
    launched older ≤ flight := by
  obtain ⟨e, he, call, hw⟩ := hl
  obtain ⟨s, t, rfl⟩ := List.append_of_mem he
  rw [List.append_assoc, List.cons_append] at h
  rw [h.permitted.flight_eq hw, launched_append]
  omega

/-- **A number stands for one computation.** -/
theorem Lawful.computed?_eq (h : Lawful l past) (hl : Launches past k flight c) :
    computed? flight past = some c := by
  induction past with
  | nil =>
      obtain ⟨_, he, _⟩ := hl
      exact absurd he (by simp)
  | cons e past ih =>
      rcases launches_cons.1 hl with ⟨call, hw⟩ | hpast
      · exact latest_of_set past (by simp [Event.computes?, hw])
      · have hkeep : e.computes? flight = none := by
          -- a computation that is started later takes the next number, which is free
          obtain ⟨time, what⟩ := e
          cases what <;> try rfl
          case started call k' flight' c' =>
            have hne : flight' ≠ flight := by
              rw [h.1.flight_eq rfl]
              exact (h.2.lt_launched hpast).ne'
            simp [Event.computes?, hne]
        exact (latest_of_keep past hkeep rfl).trans (ih h.2 hpast)

theorem Lawful.launches_unique (h : Lawful l past) (hl : Launches past k flight c)
    (hl' : Launches past k' flight c') : k = k' ∧ c = c' := by
  -- the number alone gives the computation; for the key the two starts have to be one event
  refine ⟨?_, Option.some.inj ((h.computed?_eq hl).symm.trans (h.computed?_eq hl'))⟩
  induction past with
  | nil =>
      obtain ⟨_, he, _⟩ := hl
      exact absurd he (by simp)
  | cons e past ih =>
      rcases launches_cons.1 hl with ⟨call, hw⟩ | hl
      · rcases launches_cons.1 hl' with ⟨call', hw'⟩ | hl'
        · rw [hw] at hw'
          injection hw'
        · have hlt := h.2.lt_launched hl'
          rw [h.1.flight_eq hw] at hlt
          exact absurd hlt (lt_irrefl _)
      · rcases launches_cons.1 hl' with ⟨call', hw'⟩ | hl'
        · have hlt := h.2.lt_launched hl
          rw [h.1.flight_eq hw'] at hlt
          exact absurd hlt (lt_irrefl _)
        · exact ih h.2 hl hl'

/-- **What is no longer in flight never is again.** -/
theorem Lawful.not_flying?_again (h : Lawful l (newer ++ older)) (hlt : flight < launched older)
    (hno : flying? k older ≠ some flight) : flying? k (newer ++ older) ≠ some flight := by
  intro hf
  -- the start that counts now would be in the newer part, with a number free before it
  obtain ⟨m, e, o, heq, hs, hkeep⟩ := latest_eq_some_iff.1 hf
  rcases List.append_eq_append_iff.1 heq with ⟨rest, hm, ho⟩ | ⟨rest, hn, ho⟩
  · refine hno (latest_eq_some_iff.2 ⟨rest, e, o, ho, hs, fun e' he => hkeep e' ?_⟩)
    rw [hm]
    exact List.mem_append_right _ he
  · cases rest with
    | nil =>
        rw [List.nil_append] at ho
        exact hno (latest_eq_some_iff.2 ⟨[], e, o, ho.symm, hs, by simp⟩)
    | cons e' rest =>
        obtain ⟨rfl, rfl⟩ := List.cons.inj ho
        obtain ⟨call, c, hw⟩ := launches_of_starts? hs
        have hl : Launches newer k flight c := ⟨e, by simp [hn], call, hw⟩
        exact absurd hlt (not_lt.2 (h.launched_le hl))

/-- Since a computation for a key was retired, what is in flight for the key was started. -/
theorem launches_since_of_flying? {e : Event κ ε β} (hs : e.starts? k = none)
    (hr : e.retires k = true) (h : flying? k (newer ++ e :: older) = some flight) :
    ∃ c, Launches newer k flight c := by
  have hsince : flying? k (newer ++ e :: older) = flying? k newer := latest_since hs hr
  exact launches_of_flying? (hsince.symm.trans h)

/-! ### What calls wait for -/

/-- A call that begins to wait does so for a computation in flight for its key, or starts it. -/
theorem Permitted.awaits? {e : Event κ ε β} {call : Nat} {w : Waiting κ}
    (h : Permitted l past e) (hw : e.awaits? call = some w) :
    call = begun past ∧
      (flying? w.key past = some w.flight ∨ ∃ c, e.what = .started call w.key w.flight c) := by
  rcases Event.cases_of_awaits? hw with hj | ⟨c, hs⟩
  · simp only [Permitted, hj] at h
    exact ⟨h.1, .inl h.2.2⟩
  · have hp := h
    simp only [Permitted, hs] at hp
    exact ⟨hp.1, .inr ⟨c, hs⟩⟩

/-- A call waits for a computation that was started for its key. -/
theorem Lawful.launches_of_waits? (h : Lawful l past) {call : Nat} {w : Waiting κ}
    (hw : waits? call past = some w) : ∃ c, Launches past w.key w.flight c := by
  obtain ⟨newer, e, older, rfl, hs, _⟩ := latest_eq_some_iff.1 hw
  rcases (h.permitted.awaits? hs).2 with hf | ⟨c, hst⟩
  · obtain ⟨c, hc⟩ := launches_of_flying? hf
    exact ⟨c, hc.mono fun _ hm => by simp [hm]⟩
  · exact ⟨c, e, by simp, call, hst⟩

/-! ### What calls and lookups get -/

/-- A lookup finds what is visible. -/
theorem Permitted.found? {e : Event κ ε β} (h : Permitted l past e) {v : β} (hf : e.found? k = some v) :
    visible? l k e.time past = some v := by
  obtain ⟨time, what⟩ := e
  cases what <;> simp only [Event.found?, reduceCtorEq] at hf
  case hit call k' value =>
    split at hf
    · rename_i hk
      obtain rfl := Option.some.inj hf
      rw [← hk]
      exact h.2
    · exact absurd hf (by simp)
  case peeked k' value =>
    split at hf
    · rename_i hk
      rw [← hk, ← hf]
      exact h.symm
    · exact absurd hf (by simp)

/-- Only the computation in flight is not passed over. -/
theorem Permitted.flying?_of_ne_stale {e : Event κ ε β} (h : Permitted l past e) {call : Nat}
    {result : Except ε β} {completion : Cache.Completion κ}
    (hw : e.what = .returned call k flight result completion) (hne : completion ≠ .stale) :
    flying? k past = some flight := by
  simp only [Permitted, hw] at h
  obtain ⟨-, -, hsettled⟩ := h
  cases completion with
  | stale => exact absurd rfl hne
  | stored displaced => exact hsettled.1
  | failed => exact hsettled.1

/-- A call returns the result of the computation that it waits for. -/
theorem Lawful.computes_of_returned {e : Event κ ε β} (h : Lawful l (e :: past))
    {part : List (Event κ ε β)} {call : Nat} {result : Except ε β} {completion : Cache.Completion κ}
    (hw : e.what = .returned call k flight result completion) (hl : Launches part k flight c)
    (hsub : part ⊆ past) : Computes part k flight result := by
  obtain ⟨hp, hpast⟩ := h
  simp only [Permitted, hw] at hp
  obtain ⟨-, ⟨c', hc', hr, -⟩, -⟩ := hp
  rw [hpast.computed?_eq (hl.mono hsub)] at hc'
  obtain rfl := Option.some.inj hc'
  exact ⟨c, hl, hr⟩

end Calls

end SecretResolver
