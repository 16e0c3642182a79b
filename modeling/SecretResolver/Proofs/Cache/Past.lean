/-
**What a history says about a cache.**

A history by itself tells what has become of each key, each call and each computation: the latest
event that matters counts.  Nothing here looks at the state of a cache, so these notions can be
held against it.

Main definitions:

* `Calls.Event.stores?`, `Calls.Event.removes`, `Calls.Event.found?` — what an event means for the
  value under a key; `starts?`, `retires`, `computes?`, `awaits?`, `leaves` — for computations and
  calls;
* `Calls.latest` — what was set last, unless it was cleared since;
* `Calls.stored?`, `Calls.uses`, `Calls.visible?` — the value under a key, the lookups that found
  it, and whether a lookup finds it now;
* `Calls.flying?`, `Calls.computed?`, `Calls.waits?` — computations in flight, computations by
  number, and what calls wait for;
* `Calls.Launches` — a computation was started within a part of a history.

Main results:

* `Calls.latest_eq_some_iff` — what was set last, event by event;
* `Calls.latest_since` — after a clearing event only what was set since then counts;
* `Calls.find?_eq_latest_of_set`, `Calls.find?_eq_latest_of_clear` — entries that follow a history;
* `Calls.stored?_eq_some_iff` — the store that counts, together with the uses since then.
-/

import Mathlib.Data.List.Chain
import SecretResolver.Cache.Calls

set_option relaxedAutoImplicit false
set_option autoImplicit false

namespace SecretResolver

universe u v w

namespace Calls

variable {κ : Type u} {ε : Type w} {β : Type v}

/-- A value that was stored. -/
structure Stored (β : Type v) where
  /-- The computation that it came from. -/
  flight : Nat
  /-- The value. -/
  value : β
  /-- When it was stored. -/
  writtenAt : Nat

/-! ### What an event means -/

namespace Event

/-- Whether a call begins. -/
def begins (e : Event κ ε β) : Bool :=
  match e.what with
  | .hit .. | .joined .. | .started .. => true
  | _ => false

/-- Whether a computation is started. -/
def launches (e : Event κ ε β) : Bool :=
  match e.what with
  | .started .. => true
  | _ => false

/-- The computation that is started under a number. -/
def computes? (flight : Nat) (e : Event κ ε β) : Option (Computation ε β) :=
  match e.what with
  | .started _ _ flight' c => if flight' = flight then some c else none
  | _ => none

/-- What a call begins to wait for. -/
def awaits? (call : Nat) (e : Event κ ε β) : Option (Waiting κ) :=
  match e.what with
  | .joined call' k flight => if call' = call then some ⟨k, flight⟩ else none
  | .started call' k flight _ => if call' = call then some ⟨k, flight⟩ else none
  | _ => none

/-- Whether a call does not wait any more. -/
def leaves (call : Nat) (e : Event κ ε β) : Bool :=
  match e.what with
  | .returned call' _ _ _ _ => call' = call
  | .aborted call' => call' = call
  | _ => false

variable [DecidableEq κ]

/-- The number of the computation that is started for a key. -/
def starts? (k : κ) (e : Event κ ε β) : Option Nat :=
  match e.what with
  | .started _ k' flight _ => if k' = k then some flight else none
  | _ => none

/-- Whether a key is dropped, by itself or with all others. -/
def drops (k : κ) (e : Event κ ε β) : Bool :=
  match e.what with
  | .invalidated k' => k' = k
  | .cleared => true
  | _ => false

/-- Whether the computation in flight for a key is brought to its end by a call that returns. -/
def lands (k : κ) (e : Event κ ε β) : Bool :=
  match e.what with
  | .returned _ k' _ _ completion => k' = k ∧ completion ≠ .stale
  | _ => false

/-- Whether the computation in flight for a key is in flight no longer. -/
def retires (k : κ) (e : Event κ ε β) : Bool := e.drops k || e.lands k

/-- The value that is stored under a key. -/
def stores? (k : κ) (e : Event κ ε β) : Option (Stored β) :=
  match e.what with
  | .returned _ k' flight (.ok value) (.stored _) =>
      if k' = k then some ⟨flight, value, e.time⟩ else none
  | _ => none

/-- Whether the entry of a key has to go for the one of another key. -/
def evicts (k : κ) (e : Event κ ε β) : Bool :=
  match e.what with
  | .returned _ k' _ _ (.stored displaced) => k' ≠ k ∧ displaced = some k
  | _ => false

/-- Whether the entry of a key is removed before it is over. -/
def removes (k : κ) (e : Event κ ε β) : Bool := e.drops k || e.evicts k

/-- The value that a lookup of a key finds. -/
def found? (k : κ) (e : Event κ ε β) : Option β :=
  match e.what with
  | .hit _ k' value => if k' = k then some value else none
  | .peeked k' value => if k' = k then value else none
  | _ => none

end Event

/-! ### The latest event that matters -/

section Latest

variable {α : Type*} {set : Event κ ε β → Option α} {clear : Event κ ε β → Bool}

/-- What was set last, unless it was cleared since. -/
def latest (set : Event κ ε β → Option α) (clear : Event κ ε β → Bool) :
    List (Event κ ε β) → Option α
  | [] => none
  | e :: past =>
      match set e with
      | some a => some a
      | none => if clear e then none else latest set clear past

theorem latest_of_set {e : Event κ ε β} {a : α} (past : List (Event κ ε β))
    (h : set e = some a) : latest set clear (e :: past) = some a := by
  simp [latest, h]

theorem latest_of_clear {e : Event κ ε β} (past : List (Event κ ε β))
    (h : set e = none) (hc : clear e = true) : latest set clear (e :: past) = none := by
  simp [latest, h, hc]

theorem latest_of_keep {e : Event κ ε β} (past : List (Event κ ε β))
    (h : set e = none) (hc : clear e = false) :
    latest set clear (e :: past) = latest set clear past := by
  simp [latest, h, hc]

/-- **What was set last**: there is an event that set it, and none since then matters. -/
theorem latest_eq_some_iff {past : List (Event κ ε β)} {a : α} :
    latest set clear past = some a ↔
      ∃ newer e older, past = newer ++ e :: older ∧ set e = some a ∧
        ∀ e' ∈ newer, set e' = none ∧ clear e' = false := by
  induction past with
  | nil => simp [latest]
  | cons e past ih =>
      constructor
      · intro h
        cases hs : set e with
        | some b =>
            rw [latest_of_set past hs] at h
            exact ⟨[], e, past, rfl, hs.trans h, by simp⟩
        -- an event that sets nothing counts only if it clears
        | none =>
            cases hc : clear e with
            | true =>
                rw [latest_of_clear past hs hc] at h
                exact absurd h (by simp)
            | false =>
                rw [latest_of_keep past hs hc] at h
                obtain ⟨newer, e', older, rfl, hs', hn⟩ := ih.1 h
                refine ⟨e :: newer, e', older, rfl, hs', ?_⟩
                intro e'' he
                rcases List.mem_cons.1 he with rfl | he
                · exact ⟨hs, hc⟩
                · exact hn e'' he
      · rintro ⟨newer, e', older, heq, hs', hn⟩
        cases newer with
        | nil =>
            obtain ⟨rfl, rfl⟩ := List.cons.inj heq
            exact latest_of_set _ hs'
        | cons e'' newer =>
            obtain ⟨rfl, rfl⟩ := List.cons.inj heq
            obtain ⟨hs, hc⟩ := hn e (List.mem_cons_self ..)
            rw [latest_of_keep _ hs hc]
            exact ih.2 ⟨newer, e', older, rfl, hs', fun x hx => hn x (List.mem_cons_of_mem _ hx)⟩

/-- What was set last was set at some time. -/
theorem exists_mem_of_latest {past : List (Event κ ε β)} {a : α}
    (h : latest set clear past = some a) : ∃ e ∈ past, set e = some a := by
  obtain ⟨newer, e, older, rfl, hs, _⟩ := latest_eq_some_iff.1 h
  exact ⟨e, by simp, hs⟩

/-- **After a clearing event only what was set since then counts.** -/
theorem latest_since {newer older : List (Event κ ε β)} {e : Event κ ε β}
    (h : set e = none) (hc : clear e = true) :
    latest set clear (newer ++ e :: older) = latest set clear newer := by
  induction newer with
  | nil => exact latest_of_clear older h hc
  | cons e' newer ih => simp only [List.cons_append, latest, ih]

/-- What is set within a part of a history is decided by that part. -/
theorem latest_append_of_isSome {newer older : List (Event κ ε β)} {e : Event κ ε β} {a : α}
    (he : e ∈ newer) (hs : set e = some a) :
    latest set clear (newer ++ older) = latest set clear newer := by
  induction newer with
  | nil => simp at he
  | cons e' newer ih =>
      simp only [List.cons_append, latest]
      cases hs' : set e' with
      | some b => rfl
      | none =>
          rcases List.mem_cons.1 he with rfl | he
          · exact absurd (hs.symm.trans hs') (by simp)
          · simp only [ih he]

end Latest

/-! ### Entries that follow a history -/

section Entries

variable {ι : Type*} {α : Type*} [DecidableEq ι] {set : ι → Event κ ε β → Option α}
  {clear : ι → Event κ ε β → Bool} {es es' : List (ι × α)} {past : List (Event κ ε β)}
  {e : Event κ ε β} {i : ι} {a : α}

/-- Where each entry is what a history sets last, it is so after an event that sets one entry and
keeps the others. -/
theorem find?_eq_latest_of_set (h : ∀ j, Entries.find? j es = latest (set j) (clear j) past)
    (hes : ∀ j, Entries.find? j es' = if i = j then some a else Entries.find? j es)
    (hset : ∀ j, set j e = if i = j then some a else none) (hclear : ∀ j, clear j e = false)
    (j : ι) : Entries.find? j es' = latest (set j) (clear j) (e :: past) := by
  rw [hes]
  split
  · rename_i hj
    rw [latest_of_set past ((hset j).trans (if_pos hj))]
  · rename_i hj
    rw [latest_of_keep past ((hset j).trans (if_neg hj)) (hclear j), h]

/-- It is so after an event that clears one entry, when this entry is dropped. -/
theorem find?_eq_latest_of_clear (h : ∀ j, Entries.find? j es = latest (set j) (clear j) past)
    (hset : ∀ j, set j e = none) (hclear : ∀ j, clear j e = decide (i = j)) (j : ι) :
    Entries.find? j (Entries.drop i es) = latest (set j) (clear j) (e :: past) := by
  rw [Entries.find?_drop]
  split
  · rename_i hj
    rw [latest_of_clear past (hset j) ((hclear j).trans (decide_eq_true hj))]
  · rename_i hj
    rw [latest_of_keep past (hset j) ((hclear j).trans (decide_eq_false hj)), h]

end Entries

/-! ### Calls and computations -/

/-- The number of calls that have begun. -/
def begun (past : List (Event κ ε β)) : Nat := past.countP Event.begins

/-- The number of computations that were started. -/
def launched (past : List (Event κ ε β)) : Nat := past.countP Event.launches

theorem begun_of_begins {e : Event κ ε β} (past : List (Event κ ε β)) (h : e.begins = true) :
    begun (e :: past) = begun past + 1 := by
  simp [begun, h]

theorem begun_of_keep {e : Event κ ε β} (past : List (Event κ ε β)) (h : e.begins = false) :
    begun (e :: past) = begun past := by
  simp [begun, h]

theorem launched_of_launches {e : Event κ ε β} (past : List (Event κ ε β))
    (h : e.launches = true) : launched (e :: past) = launched past + 1 := by
  simp [launched, h]

theorem launched_of_keep {e : Event κ ε β} (past : List (Event κ ε β))
    (h : e.launches = false) : launched (e :: past) = launched past := by
  simp [launched, h]

/-- What a call waits for. -/
def waits? (call : Nat) (past : List (Event κ ε β)) : Option (Waiting κ) :=
  latest (Event.awaits? call) (Event.leaves call) past

/-- The computation with a number. -/
def computed? (flight : Nat) (past : List (Event κ ε β)) : Option (Computation ε β) :=
  latest (Event.computes? flight) (fun _ => false) past

/-- A computation for a key was started under a number within a part of a history. -/
def Launches (part : List (Event κ ε β)) (k : κ) (flight : Nat) (c : Computation ε β) : Prop :=
  ∃ e ∈ part, ∃ call, e.what = .started call k flight c

theorem Launches.mono {part whole : List (Event κ ε β)} {k : κ} {flight : Nat}
    {c : Computation ε β} (h : Launches part k flight c) (hsub : part ⊆ whole) :
    Launches whole k flight c := by
  obtain ⟨e, he, call, hw⟩ := h
  exact ⟨e, hsub he, call, hw⟩

variable [DecidableEq κ]

/-- The number of the computation in flight for a key. -/
def flying? (k : κ) (past : List (Event κ ε β)) : Option Nat :=
  latest (Event.starts? k) (Event.retires k) past

theorem launches_of_starts? {e : Event κ ε β} {k : κ} {flight : Nat}
    (h : e.starts? k = some flight) : ∃ call c, e.what = .started call k flight c := by
  obtain ⟨time, what⟩ := e
  cases what <;> simp only [Event.starts?, reduceCtorEq] at h
  case started call k' flight' c =>
    split at h
    · rename_i hk
      obtain rfl := Option.some.inj h
      exact ⟨call, c, by rw [hk]⟩
    · exact absurd h (by simp)

/-- What is in flight was started. -/
theorem launches_of_flying? {past : List (Event κ ε β)} {k : κ} {flight : Nat}
    (h : flying? k past = some flight) : ∃ c, Launches past k flight c := by
  obtain ⟨e, he, hs⟩ := exists_mem_of_latest h
  obtain ⟨call, c, hw⟩ := launches_of_starts? hs
  exact ⟨c, e, he, call, hw⟩

/-! ### Values under keys -/

/-- What is stored under a key. -/
def stored? (k : κ) (past : List (Event κ ε β)) : Option (Stored β) :=
  latest (Event.stores? k) (Event.removes k) past

/-- The times of the lookups of a key that found what was stored last, the latest first. -/
def uses (k : κ) : List (Event κ ε β) → List Nat
  | [] => []
  | e :: past =>
      -- uses before the store that counts do not matter any more
      if (e.stores? k).isSome then []
      else if (e.found? k).isSome then e.time :: uses k past
      else uses k past

/-- Whether both lifetimes of a stored value have lasted up to now: little time has passed since it
was stored, and never much time from one use of it to the next. -/
def Stored.Lasts (s : Stored β) (l : CacheLimits) (now : Nat) (uses : List Nat) : Prop :=
  now - s.writtenAt < l.afterWrite ∧
    (now :: (uses ++ [s.writtenAt])).IsChain fun later earlier => later - earlier < l.afterAccess

instance (s : Stored β) (l : CacheLimits) (now : Nat) (uses : List Nat) :
    Decidable (s.Lasts l now uses) := inferInstanceAs (Decidable (_ ∧ _))

/-- The value that a lookup of a key has to find. -/
def visible? (l : CacheLimits) (k : κ) (now : Nat) (past : List (Event κ ε β)) : Option β :=
  (stored? k past).bind fun s => if s.Lasts l now (uses k past) then some s.value else none

/-- The uses of a key within a part of a history without a store are the lookups in it. -/
theorem uses_append {k : κ} {newer older : List (Event κ ε β)}
    (h : ∀ e ∈ newer, e.stores? k = none) :
    uses k (newer ++ older) =
      (newer.filter fun e => (e.found? k).isSome).map Event.time ++ uses k older := by
  induction newer with
  | nil => rfl
  | cons e newer ih =>
      have ih := ih fun e' he => h e' (List.mem_cons_of_mem _ he)
      have he : e.stores? k = none := h e (List.mem_cons_self ..)
      cases hf : (e.found? k).isSome with
      | true => simp [uses, he, hf, ih]
      | false => simp [uses, he, hf, ih]

/-- A store is that of a call that returns, at the time of its event. -/
theorem Event.returned_of_stores? {e : Event κ ε β} {k : κ} {s : Stored β}
    (h : e.stores? k = some s) : s.writtenAt = e.time ∧ ∃ call displaced,
      e.what = .returned call k s.flight (.ok s.value) (.stored displaced) := by
  obtain ⟨time, what⟩ := e
  rcases what with _ | _ | _ | _ | ⟨call, k', flight', _ | value, _ | displaced | _⟩ | _ | _ | _ |
    _ | _ | _ <;> simp only [Event.stores?, reduceCtorEq] at h
  split at h
  · rename_i hk
    obtain rfl := Option.some.inj h
    exact ⟨rfl, call, displaced, by rw [hk]⟩
  · exact absurd h (by simp)

/-- **The store that counts**: nothing is stored or removed since then, and the uses are the lookups
since then. -/
theorem stored?_eq_some_iff {k : κ} {past : List (Event κ ε β)} {s : Stored β} {us : List Nat} :
    stored? k past = some s ∧ uses k past = us ↔
      ∃ newer e older, past = newer ++ e :: older ∧ e.stores? k = some s ∧
        (∀ e' ∈ newer, e'.stores? k = none ∧ e'.removes k = false) ∧
        (newer.filter fun e' => (e'.found? k).isSome).map Event.time = us := by
  constructor
  · rintro ⟨hs, rfl⟩
    obtain ⟨newer, e, older, rfl, he, hn⟩ := latest_eq_some_iff.1 hs
    refine ⟨newer, e, older, rfl, he, hn, ?_⟩
    rw [uses_append fun e' h' => (hn e' h').1]
    simp [uses, he]
  · rintro ⟨newer, e, older, rfl, he, hn, rfl⟩
    refine ⟨latest_eq_some_iff.2 ⟨newer, e, older, rfl, he, hn⟩, ?_⟩
    rw [uses_append fun e' h' => (hn e' h').1]
    simp [uses, he]

theorem visible?_eq_some_iff {l : CacheLimits} {k : κ} {now : Nat} {past : List (Event κ ε β)}
    {v : β} : visible? l k now past = some v ↔
      ∃ s, stored? k past = some s ∧ s.Lasts l now (uses k past) ∧ s.value = v := by
  unfold visible?
  rw [Option.bind_eq_some_iff]
  constructor
  · rintro ⟨s, hs, hv⟩
    split at hv
    · rename_i hl
      exact ⟨s, hs, hl, Option.some.inj hv⟩
    · exact absurd hv (by simp)
  · rintro ⟨s, hs, hl, rfl⟩
    exact ⟨s, hs, by rw [if_pos hl]⟩

end Calls

end SecretResolver
