/-
**Calls on a cache, in any order.**

Whoever shares a cache takes turns at it.  A move is what is done in one turn: a call begins, a
call that waits goes on, a call is given up, a key is looked up or dropped, everything is dropped,
entries that are over are removed, or time passes.  Every list of moves is possible: a call that
goes on before its computation is ready just keeps waiting, and nobody has to go on at all.

Each move is an event with a time.  The events of some moves are their history.

Main definitions:

* `Plan`, `Waiting`, `Calls` — computations to come, calls that wait, and the state;
* `Calls.Move`, `Calls.Happening`, `Calls.move` — what may be done, and what it does;
* `Calls.Event`, `Calls.machine` — happenings with their times, and the moves as a machine;
* `Calls.after`, `Calls.history` — the state after some moves, and their history.
-/

import SecretResolver.Cache.Shared
import SecretResolver.Machine

set_option relaxedAutoImplicit false
set_option autoImplicit false

namespace SecretResolver

universe u v w

/-- What a computation will come to when it is started. -/
structure Plan (ε : Type w) (β : Type v) where
  delay : Nat
  result : Except ε β

/-- What a call waits for. -/
structure Waiting (κ : Type u) where
  key : κ
  flight : Nat
  deriving Repr, DecidableEq

/-- A cache with the calls that wait, under one clock. -/
structure Calls (κ : Type u) (ε : Type w) (β : Type v) where
  now : Nat
  shared : Shared κ ε β
  /-- The calls that wait, by number, in the order in which they began. -/
  waiting : List (Nat × Waiting κ)
  /-- The number of the next call, which is the number of those begun so far. -/
  nextCall : Nat

namespace Calls

variable {κ : Type u} {ε : Type w} {β : Type v}

/-- What may be done in one turn: a call begins, goes on if it can, or is given up; a key is looked up
without being requested, or dropped; everything is dropped; the entries that are over are removed; time
passes. -/
inductive Move (κ : Type u) (ε : Type w) (β : Type v) where
  | call (key : κ) (plan : Plan ε β)
  | poll (call : Nat)
  | abort (call : Nat)
  | peek (key : κ)
  | invalidate (key : κ)
  | clear
  | cleanup
  | pass (ms : Nat)

/-- What happens in one turn.  A call that hits returns at once; a call that is idle could not go on. -/
inductive Happening (κ : Type u) (ε : Type w) (β : Type v) where
  | hit (call : Nat) (key : κ) (value : β)
  /-- A call began and waits for a computation that was in flight. -/
  | joined (call : Nat) (key : κ) (flight : Nat)
  /-- A call began, started a computation and waits for it. -/
  | started (call : Nat) (key : κ) (flight : Nat) (computation : Computation ε β)
  | idle (call : Nat)
  /-- A call retired its computation, if that was still to be done, and returned its result. -/
  | returned (call : Nat) (key : κ) (flight : Nat) (result : Except ε β)
      (completion : Cache.Completion κ)
  | aborted (call : Nat)
  | peeked (key : κ) (found : Option β)
  | invalidated (key : κ)
  | cleared
  | cleaned
  | passed (ms : Nat)

/-- Something that happened at some time. -/
structure Event (κ : Type u) (ε : Type w) (β : Type v) where
  time : Nat
  what : Happening κ ε β

/-- A cache that nobody has used. -/
def start (l : CacheLimits) : Calls κ ε β := ⟨0, .empty l, [], 0⟩

variable [DecidableEq κ]

/-! ### Moves -/

/-- The call that begins now, waiting for a computation. -/
def await (s : Calls κ ε β) (k : κ) (flight : Nat) (shared : Shared κ ε β) : Calls κ ε β :=
  { s with
    shared := shared
    waiting := Entries.put s.nextCall ⟨k, flight⟩ s.waiting
    nextCall := s.nextCall + 1 }

/-- Begins a call. -/
def call (s : Calls κ ε β) (k : κ) (plan : Plan ε β) : Happening κ ε β × Calls κ ε β :=
  match s.shared.request s.now k with
  | (.hit value, shared) =>
      (.hit s.nextCall k value, { s with shared := shared, nextCall := s.nextCall + 1 })
  | (.joined flight, shared) => (.joined s.nextCall k flight, s.await k flight shared)
  | (.started flight _, shared) =>
      let c : Computation ε β := ⟨s.now + plan.delay, plan.result⟩
      (.started s.nextCall k flight c, s.await k flight (shared.begin_ flight c))

/-- When a waiting call can go on. -/
def readyAt (s : Calls κ ε β) (w : Waiting κ) : Nat := (s.shared.readyAt? w.flight).getD s.now

/-- Lets a call go on that waits for a computation which is ready. -/
def collect (s : Calls κ ε β) (call : Nat) (w : Waiting κ) : Happening κ ε β × Calls κ ε β :=
  match s.shared.collect s.now w.key w.flight with
  | (none, _) => (.idle call, s)
  | (some (result, completion), shared) =>
      (.returned call w.key w.flight result completion,
        { s with shared := shared, waiting := Entries.drop call s.waiting })

/-- Lets a call go on if it can. -/
def poll (s : Calls κ ε β) (call : Nat) : Happening κ ε β × Calls κ ε β :=
  match Entries.find? call s.waiting with
  | none => (.idle call, s)
  | some w => if s.readyAt w ≤ s.now then s.collect call w else (.idle call, s)

/-- What a move does: what happens, and the state after it. -/
def move (s : Calls κ ε β) : Move κ ε β → Happening κ ε β × Calls κ ε β
  | .call k plan => s.call k plan
  | .poll call => s.poll call
  | .abort call => (.aborted call, { s with waiting := Entries.drop call s.waiting })
  | .peek k =>
      let (found, shared) := s.shared.peek s.now k
      (.peeked k found.value?, { s with shared := shared })
  | .invalidate k => (.invalidated k, { s with shared := s.shared.invalidate k })
  | .clear => (.cleared, { s with shared := s.shared.clear })
  | .cleanup => (.cleaned, { s with shared := s.shared.cleanup s.now })
  | .pass ms => (.passed ms, { s with now := s.now + ms })

/-! ### Histories -/

/-- The event that a move is in some state. -/
def event (s : Calls κ ε β) (m : Move κ ε β) : Event κ ε β := ⟨s.now, (s.move m).1⟩

/-- The moves on a cache that nobody has used, with events for what happens. -/
def machine (l : CacheLimits) : Machine (Calls κ ε β) (Move κ ε β) (Event κ ε β) :=
  ⟨start l, fun s m => (s.event m, (s.move m).2)⟩

/-- The state after some moves, of which the last one is given first. -/
def after (l : CacheLimits) (ms : List (Move κ ε β)) : Calls κ ε β := (machine l).after ms

/-- The history of some moves, the last event first. -/
def history (l : CacheLimits) (ms : List (Move κ ε β)) : List (Event κ ε β) :=
  (machine l).history ms

end Calls

end SecretResolver
