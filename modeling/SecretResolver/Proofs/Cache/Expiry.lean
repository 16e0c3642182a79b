/-
**What lookups find, exactly.**

A lookup finds a value if and only if the history of its key says so: the value was stored last and
not removed since, it was stored less than one lifetime ago, and from the store over all lookups
that found it up to now there never passed as much as the other lifetime.  The cache keeps two times
of all this only.

Nothing but stores, removals and time makes a difference to what is found: removing what is over
does not, and neither does a lookup that finds nothing.  What is over stays so until a value is
stored again.

Main definitions:

* `Calls.Live` — the value that a history says is there.

Main results:

* `Calls.Reflects.sees?_eq` — a lookup finds what is visible;
* `Calls.visible?_eq_some_iff_live` — what is visible, event by event;
* `Calls.Permitted.visible?_keep`, `Calls.Permitted.visible?_stays` — what makes no difference, and
  what is over stays over;
* `Calls.sees?_keep`, `Calls.sees?_lookup` — so it is with the state of a cache;
* `Calls.lookup_exact` — **lookups find what is live, in every run**.
-/

import SecretResolver.Proofs.Cache.Flights

set_option relaxedAutoImplicit false
set_option autoImplicit false

namespace SecretResolver

universe u v w

namespace Calls

variable {κ : Type u} {ε : Type w} {β : Type v} [DecidableEq κ]

/-- A history says that a value is there for a key: it was stored, nothing was stored for the key or
removed since then, it was stored less than one lifetime ago, and less than the other lifetime lies
between any two consecutive times among now, those of the lookups since then that found it, and that
of the store. -/
def Live (l : CacheLimits) (past : List (Event κ ε β)) (k : κ) (now : Nat) (v : β) : Prop :=
  ∃ newer e older flight, past = newer ++ e :: older ∧ e.stores? k = some ⟨flight, v, e.time⟩ ∧
    (∀ e' ∈ newer, e'.stores? k = none ∧ e'.removes k = false) ∧
    now - e.time < l.afterWrite ∧
    (now :: ((newer.filter fun e' => (e'.found? k).isSome).map Event.time ++ [e.time])).IsChain
      fun later earlier => later - earlier < l.afterAccess

variable {l : CacheLimits} {past : List (Event κ ε β)} {s : Calls κ ε β} {k : κ} {now : Nat}
variable {e : Event κ ε β}

/-! ### Lookups -/

/-- What is visible, event by event. -/
theorem visible?_eq_some_iff_live {v : β} :
    visible? l k now past = some v ↔ Live l past k now v := by
  rw [visible?_eq_some_iff]
  constructor
  · rintro ⟨s, hs, hlasts, rfl⟩
    obtain ⟨newer, e, older, heq, he, hn, hus⟩ := stored?_eq_some_iff.1 ⟨hs, rfl⟩
    have htime := (Event.returned_of_stores? he).1
    unfold Stored.Lasts at hlasts
    rw [htime, ← hus] at hlasts
    refine ⟨newer, e, older, s.flight, heq, ?_, hn, hlasts⟩
    rw [he, ← htime]
  · rintro ⟨newer, e, older, flight, heq, he, hn, hlasts⟩
    obtain ⟨hs, hus⟩ := stored?_eq_some_iff.2 ⟨newer, e, older, heq, he, hn, rfl⟩
    refine ⟨_, hs, ?_, rfl⟩
    unfold Stored.Lasts
    rw [hus]
    exact hlasts

/-- A lookup finds what is visible. -/
theorem Reflects.sees?_eq (h : Reflects l past s) (k : κ) : s.sees? k = visible? l k s.now past := by
  rcases s.shared.cache.lookup_cases s.now k with ⟨e, hf, hlive, -⟩ | ⟨hover, -⟩
  · rw [sees?_of_live hf hlive, h.entries.visible?_of_live hf (h.limits ▸ hlive)]
  · rw [sees?_of_over hover, h.entries.visible?_of_over (h.limits ▸ hover)]

/-- Both ways of looking up a key find what is there. -/
theorem found?_event_peek (s : Calls κ ε β) (k : κ) :
    (s.event (.peek k)).found? k = s.sees? k := by
  simp [event, move, Shared.peek, Event.found?, sees?]

theorem found?_event_call (s : Calls κ ε β) (k : κ) (plan : Plan ε β) :
    (s.event (.call k plan)).found? k = s.sees? k := by
  rcases s.call_cases k plan with
    ⟨e, hf, hlive, hcall⟩ | ⟨hover, ⟨flight, -, hcall⟩ | ⟨-, hcall⟩⟩
  · simp [event, move, hcall, Event.found?, sees?_of_live hf hlive]
  · simp [event, move, hcall, Event.found?, sees?_of_over hover]
  · simp [event, move, hcall, Event.found?, sees?_of_over hover]

/-! ### What makes no difference -/

/-- A lookup that finds a value does not end its time. -/
theorem visible?_of_found {v : β} (hs : e.stores? k = none) (hr : e.removes k = false)
    (hf : e.found? k = some v) (hv : visible? l k e.time past = some v) :
    visible? l k e.time (e :: past) = some v := by
  obtain ⟨s, hst, ⟨hwrite, hchain⟩, rfl⟩ := visible?_eq_some_iff.1 hv
  refine visible?_eq_some_iff.2 ⟨s, (stored?_of_keep hs hr).trans hst, ⟨hwrite, ?_⟩, rfl⟩
  rw [uses_of_found hs hf, List.cons_append, List.isChain_cons_cons]
  refine ⟨?_, hchain⟩
  -- a lookup that found something shows that the lifetime is not nought
  obtain ⟨x, xs, hx⟩ := List.exists_cons_of_ne_nil
    (List.append_ne_nil_of_right_ne_nil (uses k past) (List.cons_ne_nil s.writtenAt []))
  rw [hx, List.isChain_cons_cons] at hchain
  omega

/-- An event that neither stores nor removes a value makes no difference to what is found. -/
theorem Permitted.visible?_keep (h : Permitted l past e) (hs : e.stores? k = none)
    (hr : e.removes k = false) :
    visible? l k e.time (e :: past) = visible? l k e.time past := by
  cases hf : e.found? k with
  | none => exact visible?_of_keep hs hr hf
  | some v => rw [h.found? hf, visible?_of_found hs hr hf (h.found? hf)]

/-- What is over is not made visible by anything but a store. -/
theorem Permitted.visible?_stays (h : Permitted l past e) (hs : e.stores? k = none)
    (hnone : visible? l k e.time past = none) : visible? l k e.time (e :: past) = none := by
  cases hr : e.removes k with
  | false => rw [h.visible?_keep hs hr, hnone]
  | true =>
      have hst : stored? k (e :: past) = none := latest_of_clear past hs hr
      simp [visible?, hst]

/-! ### Time -/

/-- How much time passes in a move. -/
def Move.duration : Move κ ε β → Nat
  | .pass ms => ms
  | _ => 0

theorem now_move (s : Calls κ ε β) (m : Move κ ε β) : (s.move m).2.now = s.now + m.duration := by
  cases m with
  | call k plan =>
      rcases s.call_cases k plan with ⟨e, -, -, hcall⟩ | ⟨-, ⟨flight, -, hcall⟩ | ⟨-, hcall⟩⟩ <;>
        simp [move, hcall, await, Move.duration]
  | poll call =>
      rcases s.poll_cases call with hidle | ⟨w, c, -, -, -, completion, cache, -, hpoll⟩
      · simp [move, hidle, Move.duration]
      · simp [move, hpoll, Move.duration]
  | _ => rfl

theorem now_after_cons (l : CacheLimits) (m : Move κ ε β) (ms : List (Move κ ε β)) :
    (after l (m :: ms)).now = (after l ms).now + m.duration := now_move _ m

/-- What is over stays over, whatever is done, until a value is stored. -/
theorem visible?_stays {ms since : List (Move κ ε β)} {newer : List (Event κ ε β)}
    (h : history l (since ++ ms) = newer ++ history l ms)
    (hs : ∀ e ∈ newer, e.stores? k = none)
    (hnone : visible? l k (after l ms).now (history l ms) = none) :
    visible? l k (after l (since ++ ms)).now (history l (since ++ ms)) = none := by
  induction since generalizing newer with
  | nil => exact hnone
  | cons m since ih =>
      -- the last of the newer events is that of the last move
      change (after l (since ++ ms)).event m :: history l (since ++ ms) = newer ++ history l ms at h
      obtain ⟨before, hbefore⟩ : ∃ before, history l (since ++ ms) = before ++ history l ms :=
        ⟨_, (machine l).history_append since ms⟩
      have hsplit : newer = (after l (since ++ ms)).event m :: before := by
        rw [hbefore, ← List.cons_append] at h
        exact (List.append_cancel_right h).symm
      subst hsplit
      have hpast := ih hbefore fun e he => hs e (List.mem_cons_of_mem _ he)
      have hpermitted := ((history_reflected l (since ++ ms)).move m).1
      have hstays := hpermitted.visible?_stays (hs _ (List.mem_cons_self ..)) hpast
      refine visible?_eq_none_of_le hstays ?_
      rw [List.cons_append, now_after_cons]
      exact Nat.le_add_right ..

/-! ### All runs -/

theorem sees?_after (l : CacheLimits) (ms : List (Move κ ε β)) (k : κ) :
    (after l ms).sees? k = visible? l k (after l ms).now (history l ms) :=
  (history_reflected l ms).sees?_eq k

/-- A move without a duration that neither stores nor removes a value for a key makes no difference
to what is found, whatever else it does. -/
theorem sees?_keep {ms : List (Move κ ε β)} {m : Move κ ε β} (hm : m.duration = 0)
    (hs : ((after l ms).event m).stores? k = none)
    (hr : ((after l ms).event m).removes k = false) :
    (after l (m :: ms)).sees? k = (after l ms).sees? k := by
  have hpermitted := ((history_reflected l ms).move m).1
  rw [sees?_after, sees?_after, now_after_cons, hm]
  exact hpermitted.visible?_keep hs hr

/-- A lookup of any key makes no difference to what is found, be it in a call or not. -/
theorem sees?_lookup (l : CacheLimits) (ms : List (Move κ ε β)) (k k' : κ) {m : Move κ ε β}
    (hm : m = .peek k' ∨ ∃ plan, m = .call k' plan) :
    (after l (m :: ms)).sees? k = (after l ms).sees? k := by
  rcases hm with rfl | ⟨plan, rfl⟩
  · exact sees?_keep rfl rfl rfl
  · rcases (after l ms).call_cases k' plan with
      ⟨e, -, -, hcall⟩ | ⟨-, ⟨flight, -, hcall⟩ | ⟨-, hcall⟩⟩ <;>
      exact sees?_keep rfl (by simp [event, move, hcall, Event.stores?])
        (by simp [event, move, hcall, Event.removes, Event.drops, Event.evicts])

/-- **Lookups find what is live, in every run.**  Neither lookups nor the removal of what is over
make a difference to what is found, and what is over stays over until a value is stored. -/
theorem lookup_exact (l : CacheLimits) (ms : List (Move κ ε β)) (k : κ) :
    (∀ m, m = .peek k ∨ (∃ plan, m = .call k plan) → ∀ v,
      ((after l ms).event m).found? k = some v ↔ Live l (history l ms) k (after l ms).now v) ∧
    (∀ m, m = .cleanup ∨ (∃ k', m = .peek k' ∨ ∃ plan, m = .call k' plan) →
      (after l (m :: ms)).sees? k = (after l ms).sees? k) ∧
    (∀ since newer, history l (since ++ ms) = newer ++ history l ms →
      (∀ e ∈ newer, e.stores? k = none) → (after l ms).sees? k = none →
      (after l (since ++ ms)).sees? k = none) := by
  refine ⟨?_, ?_, ?_⟩
  · intro m hm v
    have hfound : ((after l ms).event m).found? k = (after l ms).sees? k := by
      rcases hm with rfl | ⟨plan, rfl⟩
      · exact found?_event_peek _ k
      · exact found?_event_call _ k plan
    rw [hfound, sees?_after, visible?_eq_some_iff_live]
  · rintro m (rfl | ⟨k', hm⟩)
    · exact sees?_keep rfl rfl rfl
    · exact sees?_lookup l ms k k' hm
  · intro since newer h hs hnone
    rw [sees?_after] at hnone ⊢
    exact visible?_stays h hs hnone

/-- Lookups keep a value beyond the lifetime since its last use, but not beyond the one since it was
stored. -/
example : ([.pass 1, .peek 7, .pass 3, .peek 7, .pass 3, .peek 7, .pass 3, .poll 0,
      .call 7 ⟨0, .ok "kept"⟩] : List (Move Nat String String)).tails.map
        (fun ms => (after ⟨2, 10, 4⟩ ms).sees? 7) =
    [none, some "kept", some "kept", some "kept", some "kept", some "kept", some "kept",
      some "kept", none, none] := rfl

end Calls

end SecretResolver
