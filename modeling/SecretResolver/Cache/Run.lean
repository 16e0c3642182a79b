/-
**Runs of a cache on time.**

A run is what happens to one cache under one clock when everybody goes on as soon as possible:
calls that are waited for, calls that wait as tasks of their own and may be given up, and
everything else that a cache can do.  Time passes only while something is waited for, and on the
way each call ends at the moment its computation is ready.  All that a run does is done in moves
(`Cache/Calls.lean`).

Main definitions:

* `Run`, `Run.Event`, `Run.step` — the state of a run, what may happen, and what it does;
* `Run.settle` — the calls that end up to some time;
* `Run.after` — the state after some events.
-/

import SecretResolver.Cache.Calls

set_option relaxedAutoImplicit false
set_option autoImplicit false

namespace SecretResolver

universe u v w

/-- The state of a run. -/
structure Run (κ : Type u) (ε : Type w) (β : Type v) extends Calls κ ε β where
  /-- The names of the tasks that wait, by the numbers of their calls. -/
  tasks : List (Nat × String)

namespace Run

variable {κ : Type u} {ε : Type w} {β : Type v}

/-- What may happen in a run. -/
inductive Event (κ : Type u) (ε : Type w) (β : Type v) where
  | get (key : κ) (plan : Plan ε β)
  /-- A key is requested by a task that waits for itself. -/
  | spawn (task : String) (key : κ) (plan : Plan ε β)
  | abort (task : String)
  | advance (ms : Nat)
  | peek (key : κ)
  | invalidate (key : κ)
  | clear
  | cleanup

/-- What an event answers. -/
inductive Answer (ε : Type w) (β : Type v) where
  | silent
  | result (r : Except ε β)
  | found (value : Option β)

/-- A call that ended, with its result. -/
abbrev Ended (ε : Type w) (β : Type v) := Nat × Except ε β

/-- A task that ended, with its result. -/
abbrev Finished (ε : Type w) (β : Type v) := String × Except ε β

/-- The beginning of a run. -/
def start (l : CacheLimits) : Run κ ε β := ⟨.start l, []⟩

/-- The tasks among some calls that ended. -/
def finished (r : Run κ ε β) (ended : List (Ended ε β)) : List (Finished ε β) :=
  ended.filterMap fun e => (Entries.find? e.1 r.tasks).map fun task => (task, e.2)

variable [DecidableEq κ]

/-- Makes a move. -/
def move (r : Run κ ε β) (m : Calls.Move κ ε β) : Calls.Happening κ ε β × Run κ ε β :=
  let (what, s) := r.toCalls.move m
  (what, ⟨s, r.tasks⟩)

/-! ### Time -/

/-- Of two waiting calls the one that can go on earlier, the first if both can at once. -/
def earlier (r : Run κ ε β) (best : Option (Nat × Waiting κ)) (w : Nat × Waiting κ) :
    Option (Nat × Waiting κ) :=
  match best with
  | none => some w
  | some b => if r.readyAt w.2 < r.readyAt b.2 then some w else some b

/-- The waiting call that can go on first. -/
def next? (r : Run κ ε β) : Option (Nat × Waiting κ) := r.waiting.foldl r.earlier none

/-- Passes time up to some moment. -/
def passTo (r : Run κ ε β) (time : Nat) : Run κ ε β := (r.move (.pass (time - r.now))).2

/-- Lets a waiting call go on as soon as it can. -/
def finish (r : Run κ ε β) (w : Nat × Waiting κ) : Option (Ended ε β) × Run κ ε β :=
  match (r.passTo (r.readyAt w.2)).move (.poll w.1) with
  | (.returned call _ _ result _, r) => (some (call, result), r)
  | (_, r) => (none, r)

/-- Lets the calls go on that can up to some time. -/
def settleWithin (until_ : Nat) : (fuel : Nat) → Run κ ε β → List (Ended ε β) × Run κ ε β
  | 0, r => ([], r)
  | fuel + 1, r =>
      match r.next? with
      | none => ([], r)
      | some w =>
          if r.readyAt w.2 ≤ until_ then
            let (done, r) := r.finish w
            let (more, r) := settleWithin until_ fuel r
            (done.toList ++ more, r)
          else ([], r)

/-- Passes time up to some moment, with all calls that end on the way. -/
def settle (r : Run κ ε β) (until_ : Nat) : List (Ended ε β) × Run κ ε β :=
  let (done, r) := settleWithin until_ r.waiting.length r
  (done, r.passTo until_)

/-! ### Events -/

/-- Waits for a computation, and answers with the result that a call gets. -/
def awaitCall (r : Run κ ε β) (call flight : Nat) : Answer ε β × List (Ended ε β) × Run κ ε β :=
  let (done, r) := r.settle ((r.shared.readyAt? flight).getD r.now)
  (((Entries.find? call done).map Answer.result).getD .silent, done, r)

/-- A request that is waited for. -/
def get (r : Run κ ε β) (k : κ) (plan : Plan ε β) :
    Answer ε β × List (Ended ε β) × Run κ ε β :=
  match r.move (.call k plan) with
  | (.hit _ _ value, r) => (.result (.ok value), [], r)
  | (.joined call _ flight, r) => r.awaitCall call flight
  | (.started call _ flight _, r) => r.awaitCall call flight
  | (_, r) => (.silent, [], r)

/-- A request by a task of its own. -/
def spawn (r : Run κ ε β) (task : String) (k : κ) (plan : Plan ε β) :
    List (Ended ε β) × Run κ ε β :=
  let named (r : Run κ ε β) (call : Nat) : Run κ ε β :=
    { r with tasks := Entries.put call task r.tasks }
  match r.move (.call k plan) with
  | (.hit call _ value, r) => ([(call, .ok value)], named r call)
  | (.joined call _ _, r) => (named r call).settle r.now
  | (.started call _ _ _, r) => (named r call).settle r.now
  | (_, r) => ([], r)

/-- Gives up the calls of a task. -/
def abort (r : Run κ ε β) (task : String) : Run κ ε β :=
  (r.tasks.filter fun t => t.2 = task).foldl (fun r t => (r.move (.abort t.1)).2) r

/-- What an event does: its answer, the calls that ended, and the state after it. -/
def act (r : Run κ ε β) : Event κ ε β → Answer ε β × List (Ended ε β) × Run κ ε β
  | .get k plan => r.get k plan
  | .spawn task k plan => (.silent, r.spawn task k plan)
  | .abort task => (.silent, [], r.abort task)
  | .advance ms => (.silent, r.settle (r.now + ms))
  | .peek k =>
      match r.move (.peek k) with
      | (.peeked _ value, r) => (.found value, [], r)
      | (_, r) => (.silent, [], r)
  | .invalidate k => (.silent, [], (r.move (.invalidate k)).2)
  | .clear => (.silent, [], (r.move .clear).2)
  | .cleanup => (.silent, [], (r.move .cleanup).2)

/-- What an event does: its answer, the tasks that ended, and the state after it. -/
def step (r : Run κ ε β) (e : Event κ ε β) : Answer ε β × List (Finished ε β) × Run κ ε β :=
  let (answer, ended, r) := r.act e
  (answer, r.finished ended, r)

/-- The state after some events. -/
def after (r : Run κ ε β) (es : List (Event κ ε β)) : Run κ ε β :=
  es.foldl (fun r e => (r.step e).2.2) r

end Run

end SecretResolver
