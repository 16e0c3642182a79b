/-
**One computation for all who want the same key.**

Calls for a key share one computation as long as it is in flight: none is started beside it, all who
wait for it get its result, and once one of them has returned nobody new comes to wait for it.  A
failure is shared in the same way, but nothing of it is kept.

Main definitions:

* `Calls.Event.Ends` — an event takes a computation out of flight;
* `Calls.SingleFlight` — how the calls of a history share computations.

Main results:

* `Calls.Lawful.flying?_or_ends` — **what was started is in flight until it is taken out**;
* `Calls.Lawful.waiting_unique` — a call waits for one computation in its life;
* `Calls.Lawful.not_flying?_of_returned` — what has answered a call is in flight no longer;
* `Calls.history_singleFlight` — **calls share computations in every run**, and what is held comes
  from computations that did not fail.
-/

import SecretResolver.Proofs.Cache.Flights

set_option relaxedAutoImplicit false
set_option autoImplicit false

namespace SecretResolver

universe u v w

namespace Calls

variable {κ : Type u} {ε : Type w} {β : Type v} [DecidableEq κ]

/-- An event takes a computation for a key out of flight: the key is dropped, or a call that waits
for the computation brings it to its end. -/
def Event.Ends (k : κ) (flight : Nat) (e : Event κ ε β) : Prop :=
  e.drops k = true ∨ ∃ call result completion,
    e.what = .returned call k flight result completion ∧ completion ≠ .stale

/-- How the calls of a history share computations. -/
structure SingleFlight (l : CacheLimits) (past : List (Event κ ε β)) : Prop where
  /-- A computation is started where there is neither a value nor a computation in flight. -/
  missed : ∀ newer e older call k flight c, past = newer ++ e :: older →
    e.what = .started call k flight c →
    visible? l k e.time older = none ∧ flying? k older = none
  /-- Between two starts for a key the earlier computation is taken out of flight. -/
  alone : ∀ newer e' between e older k call flight c call' flight' c',
    past = newer ++ e' :: (between ++ e :: older) →
    e.what = .started call k flight c → e'.what = .started call' k flight' c' →
    ∃ x ∈ between, x.Ends k flight
  /-- A call that has come to wait for a computation returns the result of that one. -/
  answered : ∀ b ∈ past, ∀ e ∈ past, ∀ call k flight k' flight' result completion,
    b.awaits? call = some ⟨k, flight⟩ → e.what = .returned call k' flight' result completion →
    k' = k ∧ flight' = flight ∧ Computes past k flight result
  /-- A computation has one key and one result. -/
  shared : ∀ k k' flight result result', Computes past k flight result →
    Computes past k' flight result' → k = k' ∧ result = result'
  /-- Once a call has returned nobody comes to wait for the computation that answered it. -/
  finished : ∀ newer e older call k flight result completion, past = newer ++ e :: older →
    e.what = .returned call k flight result completion →
    ∀ b ∈ newer, ∀ call' w, b.awaits? call' = some w → w.flight ≠ flight
  /-- A failure is not stored. -/
  failed : ∀ e ∈ past, ∀ call k flight error completion,
    e.what = .returned call k flight (.error error) completion →
    completion = .stale ∨ completion = .failed
  /-- A call for the key that begins after a failure finds a value of another computation, or it
  waits for a computation that was started later. -/
  retried : ∀ newer b between e older call k flight error completion,
    past = newer ++ b :: (between ++ e :: older) →
    e.what = .returned call k flight (.error error) completion →
    (∀ v, b.found? k = some v → ∃ s, stored? k (between ++ e :: older) = some s ∧ s.value = v ∧
      s.flight ≠ flight) ∧
    (∀ call' flight', b.awaits? call' = some ⟨k, flight'⟩ → flight < flight' ∧
      ∃ since start before starter c c', b :: (between ++ e :: older) = since ++ start :: before ∧
        start.what = .started starter k flight c ∧ Launches since k flight' c')

variable {l : CacheLimits} {past newer older between : List (Event κ ε β)} {k k' : κ}
variable {e b : Event κ ε β} {call call' flight flight' : Nat} {w w' : Waiting κ}

/-! ### One computation at a time -/

/-- A computation is started where there is neither a value nor a computation in flight. -/
theorem Permitted.missed (h : Permitted l past e) {c : Computation ε β}
    (hw : e.what = .started call k flight c) :
    visible? l k e.time past = none ∧ flying? k past = none := by
  simp only [Permitted, hw] at h
  exact ⟨h.2.1, h.2.2.1⟩

theorem starts?_of_started {c : Computation ε β} (hw : e.what = .started call k flight c) :
    e.starts? k = some flight := by
  simp [Event.starts?, hw]

theorem Event.returned_of_lands (h : e.lands k = true) : ∃ call flight result completion,
    e.what = .returned call k flight result completion ∧ completion ≠ .stale := by
  obtain ⟨time, what⟩ := e
  cases what <;> simp only [Event.lands, Bool.false_eq_true] at h
  case returned call k' flight result completion =>
    obtain ⟨rfl, hne⟩ := of_decide_eq_true h
    exact ⟨call, flight, result, completion, rfl, hne⟩

/-- **What was started is in flight until it is taken out.** -/
theorem Lawful.flying?_or_ends (h : Lawful l (newer ++ e :: older)) {c : Computation ε β}
    (hw : e.what = .started call k flight c) :
    flying? k (newer ++ e :: older) = some flight ∨ ∃ x ∈ newer, x.Ends k flight := by
  induction newer with
  | nil => exact .inl (latest_of_set older (starts?_of_started hw))
  | cons x newer ih =>
      rcases ih h.2 with hf | ⟨y, hy, hends⟩
      · cases hs : x.starts? k with
        | some flight' =>
            -- nothing is started for the key as long as the computation is in flight
            obtain ⟨call', c', hw'⟩ := launches_of_starts? hs
            have hnone := (h.1.missed hw').2
            exact absurd (hf.symm.trans hnone) (by simp)
        | none =>
            cases hr : x.retires k with
            | false => exact .inl ((latest_of_keep _ hs hr).trans hf)
            | true =>
                refine .inr ⟨x, List.mem_cons_self .., ?_⟩
                rcases Bool.or_eq_true_iff.1 hr with hd | hl
                · exact .inl hd
                · obtain ⟨call', flight', result, completion, hx, hne⟩ := x.returned_of_lands hl
                  have hf' := h.1.flying?_of_ne_stale hx hne
                  obtain rfl := Option.some.inj (hf.symm.trans hf')
                  exact .inr ⟨call', result, completion, hx, hne⟩
      · exact .inr ⟨y, List.mem_cons_of_mem _ hy, hends⟩

/-! ### One computation for a call -/

omit [DecidableEq κ] in
theorem begins_of_awaits? (h : e.awaits? call = some w) : e.begins = true := by
  rcases Event.cases_of_awaits? h with hw | ⟨c, hw⟩ <;> simp [Event.begins, hw]

theorem Lawful.lt_begun (h : Lawful l past) (hb : b ∈ past) (ha : b.awaits? call = some w) :
    call < begun past := by
  induction past with
  | nil => exact absurd hb (by simp)
  | cons e past ih =>
      rcases List.mem_cons.1 hb with rfl | hb
      · rw [begun_of_begins past (begins_of_awaits? ha), (h.1.awaits? ha).1]
        omega
      · refine (ih h.2 hb).trans_le ?_
        simp only [begun, List.countP_cons]
        omega

/-- A call waits for one computation in its life. -/
theorem Lawful.waiting_unique (h : Lawful l past) (hb : b ∈ past) (he : e ∈ past)
    (ha : b.awaits? call = some w) (ha' : e.awaits? call = some w') : w = w' := by
  induction past with
  | nil => exact absurd hb (by simp)
  | cons x past ih =>
      rcases List.mem_cons.1 hb with rfl | hpast
      · rcases List.mem_cons.1 he with rfl | hpast'
        · exact Option.some.inj (ha.symm.trans ha')
        · have hlt := h.2.lt_begun hpast' ha'
          exact absurd (h.1.awaits? ha).1 hlt.ne
      · rcases List.mem_cons.1 he with rfl | hpast'
        · have hlt := h.2.lt_begun hpast ha
          exact absurd (h.1.awaits? ha').1 hlt.ne
        · exact ih h.2 hpast hpast'

/-- A call that returns has come to wait before, for the computation whose result it returns. -/
theorem Lawful.answered (h : Lawful l (e :: past)) {result : Except ε β}
    {completion : Cache.Completion κ} (hw : e.what = .returned call k flight result completion) :
    (∃ b ∈ past, b.awaits? call = some ⟨k, flight⟩) ∧ Computes past k flight result := by
  have hp := h.1
  simp only [Permitted, hw] at hp
  obtain ⟨b, hb, ha⟩ := exists_mem_of_latest hp.1
  obtain ⟨c, hc⟩ := h.2.launches_of_waits? hp.1
  exact ⟨⟨b, hb, ha⟩, h.computes_of_returned hw hc (List.Subset.refl _)⟩

/-! ### No computation for later calls -/

/-- What has answered a call is in flight no longer. -/
theorem Lawful.not_flying?_of_returned (h : Lawful l (e :: past)) {result : Except ε β}
    {completion : Cache.Completion κ} (hw : e.what = .returned call k flight result completion)
    (k' : κ) : flying? k' (e :: past) ≠ some flight := by
  intro hf
  have hs : ∀ k, e.starts? k = none := fun k => by simp [Event.starts?, hw]
  -- a computation has one key, so it would be in flight for the key that it was started for
  obtain ⟨-, c, hc, -⟩ := h.answered hw
  obtain ⟨c', hc'⟩ := launches_of_flying? hf
  have hc := hc.mono (List.subset_cons_self e past)
  obtain ⟨rfl, -⟩ := h.launches_unique hc' hc
  by_cases hne : completion = .stale
  · subst hne
    have hkeep : e.retires k' = false := by simp [Event.retires, Event.drops, Event.lands, hw]
    have hp := h.1
    simp only [Permitted, hw] at hp
    exact hp.2.2 ((latest_of_keep past (hs k') hkeep).symm.trans hf)
  · have hretires : e.retires k' = true := by simp [Event.retires, Event.lands, hw, hne]
    exact absurd (hf.symm.trans (latest_of_clear past (hs k') hretires)) (by simp)

/-- A computation that has answered a call has a number that is taken. -/
theorem Lawful.lt_launched_of_returned (h : Lawful l (e :: past)) {result : Except ε β}
    {completion : Cache.Completion κ} (hw : e.what = .returned call k flight result completion) :
    flight < launched (e :: past) := by
  obtain ⟨-, c, hc, -⟩ := h.answered hw
  exact h.lt_launched (hc.mono (List.subset_cons_self e past))

/-- Nobody comes to wait for a computation that has answered a call. -/
theorem Lawful.not_awaited_again (h : Lawful l (b :: (between ++ e :: older))) {result : Except ε β}
    {completion : Cache.Completion κ} (hw : e.what = .returned call k flight result completion)
    (ha : b.awaits? call' = some w) : w.flight ≠ flight := by
  intro heq
  have hlt := h.2.older.lt_launched_of_returned hw
  have hno := h.2.older.not_flying?_of_returned hw w.key
  rcases (h.1.awaits? ha).2 with hf | ⟨c, hst⟩
  · rw [heq] at hf
    exact h.2.not_flying?_again hlt hno hf
  · -- a computation that is started now has a number that was never taken
    have hfresh := h.1.flight_eq hst
    rw [launched_append] at hfresh
    omega

/-! ### Failures -/

/-- A failure is not stored. -/
theorem Permitted.not_stored_of_error (h : Permitted l past e) {error : ε}
    {completion : Cache.Completion κ}
    (hw : e.what = .returned call k flight (.error error) completion) :
    completion = .stale ∨ completion = .failed := by
  simp only [Permitted, hw] at h
  obtain ⟨-, -, hsettled⟩ := h
  cases completion with
  | stale => exact .inl rfl
  | failed => exact .inr rfl
  | stored displaced =>
      obtain ⟨-, value, heq⟩ := hsettled
      exact absurd heq (by simp)

/-- What is stored is the value of a computation that was started for the key. -/
theorem Lawful.computes_of_stored?_any (h : Lawful l past) {s : Stored β}
    (hs : stored? k past = some s) : Computes past k s.flight (.ok s.value) := by
  obtain ⟨newer, e, older, rfl, hst, -⟩ := latest_eq_some_iff.1 hs
  obtain ⟨-, call, displaced, hw⟩ := Event.returned_of_stores? hst
  refine (h.older.answered hw).2.mono fun x hx => ?_
  simp [hx]

/-- A value that is found after a failure comes from another computation. -/
theorem Lawful.found_after_error (h : Lawful l (b :: (between ++ e :: older))) {error : ε}
    {completion : Cache.Completion κ}
    (hw : e.what = .returned call k flight (.error error) completion) {v : β}
    (hf : b.found? k = some v) :
    ∃ s, stored? k (between ++ e :: older) = some s ∧ s.value = v ∧ s.flight ≠ flight := by
  obtain ⟨s, hs, -, rfl⟩ := visible?_eq_some_iff.1 (h.1.found? hf)
  refine ⟨s, hs, rfl, fun heq => ?_⟩
  obtain ⟨c, hc, hok⟩ := h.2.computes_of_stored?_any hs
  obtain ⟨c', hc', herror⟩ := (h.2.older.answered hw).2
  -- one computation cannot have both results
  have hc' : Launches (between ++ e :: older) k flight c' := hc'.mono fun x hx => by simp [hx]
  rw [heq] at hc
  obtain ⟨-, rfl⟩ := h.2.launches_unique hc hc'
  exact absurd (hok.symm.trans herror) (by simp)

/-- What is in flight for a key, unless it is the computation started by some event, was started
since then. -/
theorem launches_since_of_started {c : Computation ε β} (hw : e.what = .started call k flight c)
    (hf : flying? k (newer ++ e :: older) = some flight') (hne : flight' ≠ flight) :
    ∃ c', Launches newer k flight' c' := by
  have hmem : e ∈ newer ++ [e] := by simp
  have hsince : flying? k ((newer ++ [e]) ++ older) = flying? k (newer ++ [e]) :=
    latest_append_of_isSome hmem (starts?_of_started hw)
  rw [List.append_assoc, List.singleton_append] at hsince
  obtain ⟨c', hc'⟩ := launches_of_flying? (hsince.symm.trans hf)
  rcases launches_append.1 hc' with hnew | hlast
  · exact ⟨c', hnew⟩
  · rcases launches_cons.1 hlast with ⟨call', hw'⟩ | hnil
    · rw [hw] at hw'
      injection hw' with _ _ heq _
      exact absurd heq.symm hne
    · obtain ⟨x, hx, -⟩ := hnil
      exact absurd hx (by simp)

/-- A call that begins after a failure waits for a computation that was started later than the one
that failed. -/
theorem Lawful.awaits_after_error (h : Lawful l (b :: (between ++ e :: older)))
    {result : Except ε β} {completion : Cache.Completion κ}
    (hw : e.what = .returned call k flight result completion)
    (ha : b.awaits? call' = some ⟨k, flight'⟩) :
    flight < flight' ∧
      ∃ since start before starter c c', b :: (between ++ e :: older) = since ++ start :: before ∧
        start.what = .started starter k flight c ∧ Launches since k flight' c' := by
  have hne : flight' ≠ flight := h.not_awaited_again hw ha
  obtain ⟨c, ⟨start, hstart, starter, hst⟩, -⟩ := (h.2.older.answered hw).2
  have hstart : start ∈ between ++ e :: older := by simp [hstart]
  obtain ⟨since, before, heq⟩ := List.append_of_mem hstart
  have hlater : ∃ c', Launches (b :: since) k flight' c' := by
    rcases (h.1.awaits? ha).2 with hf | ⟨c', hst'⟩
    · rw [heq] at hf
      obtain ⟨c', hc'⟩ := launches_since_of_started hst hf hne
      exact ⟨c', hc'.mono (List.subset_cons_self ..)⟩
    · exact ⟨c', b, List.mem_cons_self .., call', hst'⟩
  obtain ⟨c', hc'⟩ := hlater
  rw [heq, ← List.cons_append] at h
  have hle := h.launched_le hc'
  rw [launched_of_launches before (launches_of_launches hst), ← h.permitted.flight_eq hst] at hle
  exact ⟨hle, b :: since, start, before, starter, c, c', by rw [heq, List.cons_append], hst, hc'⟩

/-- In a lawful history calls share computations. -/
theorem Lawful.singleFlight (h : Lawful l past) : SingleFlight l past where
  missed newer e older call k flight c heq hw := by
    subst heq
    exact h.permitted.missed hw
  alone newer e' between e older k call flight c call' flight' c' heq hw hw' := by
    subst heq
    have hnone := (h.permitted.missed hw').2
    rcases h.older.2.flying?_or_ends hw with hf | hends
    · exact absurd (hf.symm.trans hnone) (by simp)
    · exact hends
  answered b hb e he call k flight k' flight' result completion ha hw := by
    obtain ⟨newer, older, rfl⟩ := List.append_of_mem he
    obtain ⟨⟨b', hb', ha'⟩, hcomputes⟩ := h.older.answered hw
    have hb' : b' ∈ newer ++ e :: older := by simp [hb']
    have hw := h.waiting_unique hb' hb ha' ha
    injection hw with hk hflight
    subst hk hflight
    exact ⟨rfl, rfl, hcomputes.mono fun x hx => by simp [hx]⟩
  shared k k' flight result result' hc hc' := by
    obtain ⟨c, hl, rfl⟩ := hc
    obtain ⟨c', hl', rfl⟩ := hc'
    obtain ⟨rfl, rfl⟩ := h.launches_unique hl hl'
    exact ⟨rfl, rfl⟩
  finished newer e older call k flight result completion heq hw b hb call' w ha := by
    subst heq
    obtain ⟨newest, between, rfl⟩ := List.append_of_mem hb
    rw [List.append_assoc, List.cons_append] at h
    exact h.older.not_awaited_again hw ha
  failed e he call k flight error completion hw := by
    obtain ⟨newer, older, rfl⟩ := List.append_of_mem he
    exact h.permitted.not_stored_of_error hw
  retried newer b between e older call k flight error completion heq hw := by
    subst heq
    exact ⟨fun v hf => h.older.found_after_error hw hf,
      fun call' flight' ha => h.older.awaits_after_error hw ha⟩

/-! ### All runs -/

/-- A call starts a computation just when it finds neither a value nor a computation in flight. -/
theorem call_started_iff (s : Calls κ ε β) (k : κ) (plan : Plan ε β) :
    (∃ call flight c, (s.call k plan).1 = .started call k flight c) ↔
      (s.shared.cache.lookup s.now k).1.value? = none ∧
        Entries.find? k s.shared.cache.inFlight = none := by
  rw [Cache.lookup_value?_eq_none_iff]
  rcases s.call_cases k plan with
    ⟨e, he, hlive, hcall⟩ | ⟨hover, ⟨flight, hflight, hcall⟩ | ⟨hno, hcall⟩⟩
  · simp [hcall, he, hlive]
  · simp [hcall, hflight]
  · rw [hcall]
    exact ⟨fun _ => ⟨hover, hno⟩, fun _ => ⟨_, _, _, rfl⟩⟩

/-- A failure that is returned leaves the entries alone. -/
theorem entries_of_returned_error {s s' : Calls κ ε β} {error : ε}
    {completion : Cache.Completion κ}
    (h : s.poll call = (.returned call' k flight (.error error) completion, s')) :
    s'.shared.cache.entries = s.shared.cache.entries := by
  rcases s.poll_cases call with hidle | ⟨w, c, -, -, -, completion', cache, heq, hpoll⟩
  · rw [hidle] at h
    exact absurd (congrArg Prod.fst h) (by simp)
  · rw [hpoll] at h
    injection h with hwhat hs
    injection hwhat with _ _ _ herror _
    subst hs
    rcases s.shared.cache.complete_cases s.now w.key w.flight c.result with
      ⟨-, hstale⟩ | ⟨-, ⟨value, hok, -⟩ | ⟨error', -, hfailed⟩⟩
    · rw [heq] at hstale
      exact congrArg (fun x => x.2.entries) hstale
    · exact absurd (hok.symm.trans herror) (by simp)
    · rw [heq] at hfailed
      exact congrArg (fun x => x.2.entries) hfailed

/-- What is held is the value of a computation that was started for the key. -/
theorem Reflects.computes_of_entry {s : Calls κ ε β} (h : Reflects l past s)
    (hlawful : Lawful l past) {entry : Cache.Entry β}
    (he : Entries.find? k s.shared.cache.entries = some entry) :
    ∃ flight, Computes past k flight (.ok entry.value) := by
  have hheld := h.entries.held k
  rw [he] at hheld
  obtain ⟨s, hs, rfl, -⟩ := hheld
  exact ⟨s.flight, hlawful.computes_of_stored?_any hs⟩

/-- **Calls share computations in every run**: a call starts a computation just when it finds
neither a value nor a computation in flight, a failure that is returned leaves the entries alone,
and they hold values of computations only. -/
theorem history_singleFlight (l : CacheLimits) (ms : List (Move κ ε β)) :
    SingleFlight l (history l ms) ∧
      (∀ k plan, (∃ call flight c, ((after l ms).call k plan).1 = .started call k flight c) ↔
        ((after l ms).shared.cache.lookup (after l ms).now k).1.value? = none ∧
          Entries.find? k (after l ms).shared.cache.inFlight = none) ∧
      (∀ call call' k flight error completion s',
        (after l ms).poll call = (.returned call' k flight (.error error) completion, s') →
        s'.shared.cache.entries = (after l ms).shared.cache.entries) ∧
      (∀ k entry, Entries.find? k (after l ms).shared.cache.entries = some entry →
        ∃ flight, Computes (history l ms) k flight (.ok entry.value)) := by
  have hlawful := history_lawful l ms
  refine ⟨hlawful.singleFlight, fun k plan => call_started_iff _ k plan, ?_, ?_⟩
  · intro call call' k flight error completion s' h
    exact entries_of_returned_error h
  · intro k entry he
    exact (history_reflected l ms).computes_of_entry hlawful he

/-- Two calls share a computation that fails; the next call starts another one. -/
example : (history ⟨2, 60, 60⟩ [.poll 2, .call 7 ⟨0, .ok "late"⟩, .poll 0, .poll 1,
      .call 7 ⟨0, .ok "never"⟩, .call 7 ⟨0, .error "fails"⟩] :
        List (Event Nat String String)).map Event.what =
    [.returned 2 7 1 (.ok "late") (.stored none), .started 2 7 1 ⟨0, .ok "late"⟩,
      .returned 0 7 0 (.error "fails") .stale, .returned 1 7 0 (.error "fails") .failed,
      .joined 1 7 0, .started 0 7 0 ⟨0, .error "fails"⟩] := rfl

end Calls

end SecretResolver
