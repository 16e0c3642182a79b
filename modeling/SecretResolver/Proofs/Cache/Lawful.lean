/-
**The rules that every history of a cache keeps.**

Which event may follow on a history is said by the history alone: a call finds what is visible, it
joins the computation in flight, and it starts one only if there is neither; a call returns the
result of the computation that it waits for, and only the one in flight is retired.  Every history
of moves keeps these rules, because the state of a cache reflects its history all the time.

What is true of all lists of events that keep the rules is then true of all runs of a cache, in
whatever order the moves come.

Main definitions:

* `Calls.Permitted`, `Calls.Lawful` — an event may follow on a history; all events of a history may;
* `Calls.Reflects` — the state of a cache is what a history says;
* `Calls.Event.Quiet` — an event concerns no call and no computation.

Main results:

* `Calls.Reflects.move` — **one move is permitted, and the state goes on to reflect the history**;
* `Calls.history_reflected`, `Calls.history_lawful` — so it is with every list of moves.
-/

import SecretResolver.Proofs.Cache.Held

set_option relaxedAutoImplicit false
set_option autoImplicit false

namespace SecretResolver

universe u v w

namespace Calls

variable {κ : Type u} {ε : Type w} {β : Type v} [DecidableEq κ]

/-! ### The rules -/

/-- What becomes of the result of a computation: it is passed over unless the computation is the one
in flight, and then a value is stored and a failure is not. -/
def Settled (inFlight : Prop) (result : Except ε β) : Cache.Completion κ → Prop
  | .stale => ¬ inFlight
  | .stored _ => inFlight ∧ ∃ value, result = .ok value
  | .failed => inFlight ∧ ∃ error, result = .error error

/-- An event may follow on a history. -/
def Permitted (l : CacheLimits) (past : List (Event κ ε β)) (e : Event κ ε β) : Prop :=
  match e.what with
  | .hit call k value => call = begun past ∧ visible? l k e.time past = some value
  | .joined call k flight =>
      call = begun past ∧ visible? l k e.time past = none ∧ flying? k past = some flight
  | .started call k flight _ =>
      call = begun past ∧ visible? l k e.time past = none ∧ flying? k past = none ∧
        flight = launched past
  | .returned call k flight result completion =>
      waits? call past = some ⟨k, flight⟩ ∧
        (∃ c, computed? flight past = some c ∧ c.result = result ∧ c.readyAt ≤ e.time) ∧
        Settled (flying? k past = some flight) result completion
  | .peeked k value => value = visible? l k e.time past
  | _ => True

/-- All events of a history are permitted by what was before them. -/
def Lawful (l : CacheLimits) : List (Event κ ε β) → Prop
  | [] => True
  | e :: past => Permitted l past e ∧ Lawful l past

theorem Lawful.older {l : CacheLimits} {newer older : List (Event κ ε β)}
    (h : Lawful l (newer ++ older)) : Lawful l older := by
  induction newer with
  | nil => exact h
  | cons e newer ih => exact ih h.2

theorem Lawful.permitted {l : CacheLimits} {newer older : List (Event κ ε β)} {e : Event κ ε β}
    (h : Lawful l (newer ++ e :: older)) : Permitted l older e := h.older.1

/-! ### States -/

/-- The state of a cache is what a history says. -/
structure Reflects (l : CacheLimits) (past : List (Event κ ε β)) (s : Calls κ ε β) : Prop where
  /-- The limits never change. -/
  limits : s.shared.cache.limits = l
  /-- The entries are those that are stored. -/
  entries : Holds l past s.now s.shared.cache.entries
  /-- The computations in flight are those that were started and not retired. -/
  flights : ∀ k, Entries.find? k s.shared.cache.inFlight = flying? k past
  /-- Computations are numbered in the order in which they are started. -/
  launched : s.shared.cache.nextFlight = launched past
  /-- The computations are those that were started. -/
  computations : ∀ flight, s.shared.computation? flight = computed? flight past
  /-- The calls that wait are those that began to wait and have not gone on. -/
  waiting : ∀ call, Entries.find? call s.waiting = waits? call past
  /-- Calls are numbered in the order in which they begin. -/
  begun : s.nextCall = begun past

variable {l : CacheLimits} {past : List (Event κ ε β)} {s : Calls κ ε β}

theorem reflects_start (l : CacheLimits) : Reflects l ([] : List (Event κ ε β)) (start l) where
  limits := rfl
  entries := ⟨by simp [start, Shared.empty, Cache.empty], by simp [start, Shared.empty, Cache.empty],
    fun _ => rfl⟩
  flights _ := rfl
  launched := rfl
  computations _ := rfl
  waiting _ := rfl
  begun := rfl

/-- An event concerns no call and no computation. -/
structure Event.Quiet (e : Event κ ε β) : Prop where
  begins : e.begins = false
  launches : e.launches = false
  computes : ∀ flight, e.computes? flight = none
  awaits : ∀ call, e.awaits? call = none
  leaves : ∀ call, e.leaves call = false
  starts : ∀ k, e.starts? k = none
  retires : ∀ k, e.retires k = false

/-- After a quiet event only time and entries are to be looked at. -/
theorem Reflects.quiet {e : Event κ ε β} (h : Reflects l past s) (he : e.Quiet) {now : Nat}
    {entries : List (κ × Cache.Entry β)} (hentries : Holds l (e :: past) now entries) :
    Reflects l (e :: past)
      { s with
        now := now
        shared := { s.shared with cache := { s.shared.cache with entries := entries } } } where
  limits := h.limits
  entries := hentries
  flights k := (h.flights k).trans (latest_of_keep past (he.starts k) (he.retires k)).symm
  launched := h.launched.trans (launched_of_keep past he.launches).symm
  computations flight :=
    (h.computations flight).trans (latest_of_keep past (he.computes flight) rfl).symm
  waiting call :=
    (h.waiting call).trans (latest_of_keep past (he.awaits call) (he.leaves call)).symm
  begun := h.begun.trans (begun_of_keep past he.begins).symm

/-! ### One move -/

/-- A call finds a value, joins the computation in flight, or starts one if there is neither. -/
theorem Reflects.call (h : Reflects l past s) (k : κ) (plan : Plan ε β) :
    Permitted l past ⟨s.now, (s.call k plan).1⟩ ∧
      Reflects l (⟨s.now, (s.call k plan).1⟩ :: past) (s.call k plan).2 := by
  have hl := h.limits
  rcases s.call_cases k plan with
    ⟨e, hf, hlive, hcall⟩ | ⟨hover, ⟨flight, hflight, hcall⟩ | ⟨hno, hcall⟩⟩
  · -- the call finds a value
    rw [hl] at hlive
    rw [hcall]
    refine ⟨⟨h.begun, h.entries.visible?_of_live hf hlive⟩, ?_⟩
    exact {
      limits := hl
      entries := h.entries.use hf hlive (fun _ => rfl) (fun _ => rfl) (fun _ => rfl) rfl
      flights := h.flights
      launched := h.launched.trans (launched_of_keep past rfl).symm
      computations := h.computations
      waiting := h.waiting
      begun := by rw [begun_of_begins past rfl, ← h.begun] }
  · -- the call joins the computation in flight
    rw [hl] at hover
    rw [hcall]
    refine ⟨⟨h.begun, h.entries.visible?_of_over hover, (h.flights k).symm.trans hflight⟩, ?_⟩
    exact {
      limits := hl
      entries := (h.entries.forget hover).keep (fun _ => rfl) (fun _ => rfl) (fun _ => rfl)
      flights := h.flights
      launched := h.launched.trans (launched_of_keep past rfl).symm
      computations := h.computations
      waiting := find?_eq_latest_of_set h.waiting (Entries.find?_put s.nextCall · _ _)
        (fun _ => rfl) (fun _ => rfl)
      begun := by rw [begun_of_begins past rfl, ← h.begun]; rfl }
  · -- the call starts a computation
    rw [hl] at hover
    rw [hcall]
    refine ⟨⟨h.begun, h.entries.visible?_of_over hover, (h.flights k).symm.trans hno,
      h.launched⟩, ?_⟩
    exact {
      limits := hl
      entries := (h.entries.forget hover).keep (fun _ => rfl) (fun _ => rfl) (fun _ => rfl)
      flights := find?_eq_latest_of_set h.flights (fun _ => rfl) (fun _ => rfl) (fun _ => rfl)
      launched := by rw [launched_of_launches past rfl, ← h.launched]; rfl
      computations := find?_eq_latest_of_set h.computations (fun _ => rfl) (fun _ => rfl)
        (fun _ => rfl)
      waiting := find?_eq_latest_of_set h.waiting (Entries.find?_put s.nextCall · _ _)
        (fun _ => rfl) (fun _ => rfl)
      begun := by rw [begun_of_begins past rfl, ← h.begun]; rfl }

/-- A call that could not go on changes nothing. -/
theorem Reflects.idle (h : Reflects l past s) (call : Nat) :
    Reflects l (⟨s.now, .idle call⟩ :: past) s :=
  h.quiet ⟨rfl, rfl, fun _ => rfl, fun _ => rfl, fun _ => rfl, fun _ => rfl, fun _ => rfl⟩
    (h.entries.keep (fun _ => rfl) (fun _ => rfl) (fun _ => rfl))

/-- A call that returns leaves its computation retired: the cache after it is the one that comes of
completing the computation. -/
theorem Reflects.returned (h : Reflects l past s) (call : Nat) {w : Waiting κ}
    {c : Computation ε β} {completion : Cache.Completion κ} {cache : Cache κ β}
    (heq : s.shared.cache.complete s.now w.key w.flight c.result = (completion, cache)) :
    Settled (flying? w.key past = some w.flight) c.result completion ∧
      Reflects l (⟨s.now, .returned call w.key w.flight c.result completion⟩ :: past)
        { s with
          shared := { s.shared with cache := cache }
          waiting := Entries.drop call s.waiting } := by
  have hl := h.limits
  -- calls and counts do not depend on what becomes of the result, so they come before the cases
  have hwaiting : ∀ call', Entries.find? call' (Entries.drop call s.waiting) =
      waits? call' (⟨s.now, .returned call w.key w.flight c.result completion⟩ :: past) :=
    find?_eq_latest_of_clear h.waiting (fun _ => rfl) (fun _ => rfl)
  have hlaunched := h.launched.trans (launched_of_keep past
    (rfl : (⟨s.now, .returned call w.key w.flight c.result completion⟩ :
      Event κ ε β).launches = false)).symm
  have hbegun := h.begun.trans (begun_of_keep past
    (rfl : (⟨s.now, .returned call w.key w.flight c.result completion⟩ :
      Event κ ε β).begins = false)).symm
  rcases s.shared.cache.complete_cases s.now w.key w.flight c.result with
    ⟨hno, hstale⟩ | ⟨hin, ⟨value, hok, hstored⟩ | ⟨error, herr, hfailed⟩⟩
  · -- the computation was retired before: nothing is left to be done
    obtain ⟨rfl, rfl⟩ := Prod.mk.inj (heq.symm.trans hstale)
    rw [h.flights] at hno
    refine ⟨hno, ?_⟩
    exact {
      limits := hl
      entries := h.entries.keep (fun _ => by cases c.result <;> rfl) (fun _ => rfl) (fun _ => rfl)
      flights := fun k => by
        rw [h.flights]
        simp [flying?, latest, Event.starts?, Event.retires, Event.drops, Event.lands]
      launched := hlaunched
      computations := h.computations
      waiting := hwaiting
      begun := hbegun }
  · -- its value is stored
    obtain ⟨rfl, rfl⟩ := Prod.mk.inj (heq.symm.trans hstored)
    rw [hok] at hwaiting hlaunched hbegun ⊢
    refine ⟨⟨(h.flights _).symm.trans hin, value, rfl⟩, ?_⟩
    exact {
      limits := hl
      entries := h.entries.store (s := ⟨w.flight, value, s.now⟩) hl (fun _ => rfl)
        (fun k' hk => by simp [Event.removes, Event.drops, Event.evicts, hk]) (fun _ => rfl) rfl
      flights := find?_eq_latest_of_clear h.flights (fun _ => rfl) fun k => by
        simp [Event.retires, Event.drops, Event.lands]
      launched := hlaunched
      computations := h.computations
      waiting := hwaiting
      begun := hbegun }
  · -- it has failed
    obtain ⟨rfl, rfl⟩ := Prod.mk.inj (heq.symm.trans hfailed)
    refine ⟨⟨(h.flights _).symm.trans hin, error, herr⟩, ?_⟩
    exact {
      limits := hl
      entries := h.entries.keep (fun _ => by cases c.result <;> rfl) (fun _ => rfl) (fun _ => rfl)
      flights := find?_eq_latest_of_clear h.flights (fun _ => rfl) fun k => by
        simp [Event.retires, Event.drops, Event.lands]
      launched := hlaunched
      computations := h.computations
      waiting := hwaiting
      begun := hbegun }

/-- A call goes on only when its computation is ready, and then returns its result. -/
theorem Reflects.poll (h : Reflects l past s) (call : Nat) :
    Permitted l past ⟨s.now, (s.poll call).1⟩ ∧
      Reflects l (⟨s.now, (s.poll call).1⟩ :: past) (s.poll call).2 := by
  rcases s.poll_cases call with hidle | ⟨w, c, hw, hc, hready, completion, cache, heq, hpoll⟩
  · rw [hidle]
    exact ⟨trivial, h.idle call⟩
  · obtain ⟨hsettled, hreflects⟩ := h.returned call heq
    rw [hpoll]
    exact ⟨⟨(h.waiting call).symm.trans hw,
      ⟨c, (h.computations _).symm.trans hc, rfl, hready⟩, hsettled⟩, hreflects⟩

/-- A lookup finds what is visible. -/
theorem Reflects.peek (h : Reflects l past s) (k : κ) :
    Permitted l past (s.event (.peek k)) ∧
      Reflects l (s.event (.peek k) :: past) (s.move (.peek k)).2 := by
  have hl := h.limits
  have hquiet : ∀ found, (⟨s.now, .peeked k found⟩ : Event κ ε β).Quiet := fun _ =>
    ⟨rfl, rfl, fun _ => rfl, fun _ => rfl, fun _ => rfl, fun _ => rfl, fun _ => rfl⟩
  rcases s.peek_cases k with ⟨e, hf, hlive, hmove⟩ | ⟨hover, hmove⟩
  · rw [hl] at hlive
    rw [event, hmove]
    refine ⟨(h.entries.visible?_of_live hf hlive).symm, h.quiet (hquiet _) ?_⟩
    exact h.entries.use hf hlive (fun _ => rfl) (fun _ => rfl) (fun _ => rfl) rfl
  · rw [hl] at hover
    rw [event, hmove]
    refine ⟨(h.entries.visible?_of_over hover).symm, h.quiet (hquiet _) ?_⟩
    exact (h.entries.forget hover).keep (fun _ => rfl) (fun _ => rfl)
      fun k' => by simp [Event.found?]

/-- **One move is permitted, and the state goes on to reflect the history.** -/
theorem Reflects.move (h : Reflects l past s) (m : Move κ ε β) :
    Permitted l past (s.event m) ∧ Reflects l (s.event m :: past) (s.move m).2 := by
  cases m with
  | call k plan => exact h.call k plan
  | poll call => exact h.poll call
  | peek k => exact h.peek k
  | abort call =>
      refine ⟨trivial, ?_⟩
      exact {
        limits := h.limits
        entries := h.entries.keep (fun _ => rfl) (fun _ => rfl) (fun _ => rfl)
        flights := h.flights
        launched := h.launched.trans (launched_of_keep past rfl).symm
        computations := h.computations
        waiting := find?_eq_latest_of_clear h.waiting (fun _ => rfl) (fun _ => rfl)
        begun := h.begun.trans (begun_of_keep past rfl).symm }
  | invalidate k =>
      refine ⟨trivial, ?_⟩
      exact {
        limits := h.limits
        entries := h.entries.drop List.filter_sublist (fun _ => rfl) (fun _ => rfl) fun k' => by
          by_cases hk : k = k' <;>
            simp [event, Calls.move, Shared.invalidate, Cache.invalidate, Event.removes,
              Event.drops, Event.evicts, Entries.find?_drop, hk]
        flights := find?_eq_latest_of_clear h.flights (fun _ => rfl) fun k' => by
          simp [event, Calls.move, Event.retires, Event.drops, Event.lands]
        launched := h.launched.trans (launched_of_keep past rfl).symm
        computations := h.computations
        waiting := h.waiting
        begun := h.begun.trans (begun_of_keep past rfl).symm }
  | clear =>
      refine ⟨trivial, ?_⟩
      exact {
        limits := h.limits
        entries := h.entries.drop (List.nil_sublist _) (fun _ => rfl) (fun _ => rfl) fun _ => rfl
        flights := fun _ => rfl
        launched := h.launched.trans (launched_of_keep past rfl).symm
        computations := h.computations
        waiting := h.waiting
        begun := h.begun.trans (begun_of_keep past rfl).symm }
  | cleanup =>
      have hclean := h.entries.cleanup
      rw [← h.limits] at hclean
      refine ⟨trivial, h.quiet ⟨rfl, rfl, fun _ => rfl, fun _ => rfl, fun _ => rfl, fun _ => rfl,
        fun _ => rfl⟩ ?_⟩
      rw [← h.limits]
      exact hclean.keep (fun _ => rfl) (fun _ => rfl) (fun _ => rfl)
  | pass ms =>
      refine ⟨trivial, h.quiet ⟨rfl, rfl, fun _ => rfl, fun _ => rfl, fun _ => rfl, fun _ => rfl,
        fun _ => rfl⟩ ?_⟩
      exact (h.entries.pass (Nat.le_add_right s.now ms)).keep (fun _ => rfl) (fun _ => rfl)
        (fun _ => rfl)

/-! ### All moves -/

/-- The state after some moves is what their history says. -/
theorem history_reflected (l : CacheLimits) (ms : List (Move κ ε β)) :
    Reflects l (history l ms) (after l ms) := by
  induction ms with
  | nil => exact reflects_start l
  | cons m ms ih => exact (ih.move m).2

/-- **Every history keeps the rules.** -/
theorem history_lawful (l : CacheLimits) (ms : List (Move κ ε β)) : Lawful l (history l ms) := by
  induction ms with
  | nil => exact trivial
  | cons m ms ih => exact ⟨((history_reflected l ms).move m).1, ih⟩

end Calls

end SecretResolver
