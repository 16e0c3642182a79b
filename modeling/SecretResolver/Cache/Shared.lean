/-
**Computations shared by their callers.**

A computation takes some time from its start and has one result, which all callers get that wait
for it.  When it is ready the first of them retires it in the cache; if nobody waits any more it
stays in flight until somebody comes.

Main definitions:

* `Computation`, `Shared` — a cache with the computations that were started for it;
* `Shared.request`, `Shared.begin_`, `Shared.readyAt?`, `Shared.collect`.
-/

import SecretResolver.Cache.Basic

set_option relaxedAutoImplicit false
set_option autoImplicit false

namespace SecretResolver

universe u v w

/-- A computation that was started. -/
structure Computation (ε : Type w) (β : Type v) where
  readyAt : Nat
  result : Except ε β

/-- A cache with the computations that were started for it. -/
structure Shared (κ : Type u) (ε : Type w) (β : Type v) where
  cache : Cache κ β
  computations : List (Nat × Computation ε β)

namespace Shared

variable {κ : Type u} {ε : Type w} {β : Type v}

/-- The cache that holds nothing. -/
def empty (l : CacheLimits) : Shared κ ε β := ⟨.empty l, []⟩

/-- The number of computations in flight. -/
def inFlight (s : Shared κ ε β) : Nat := s.cache.inFlight.length

/-- The computation with a number. -/
def computation? (s : Shared κ ε β) (flight : Nat) : Option (Computation ε β) :=
  Entries.find? flight s.computations

/-- When the computation with a number is ready. -/
def readyAt? (s : Shared κ ε β) (flight : Nat) : Option Nat :=
  (s.computation? flight).map Computation.readyAt

/-- Adds the computation that a request has started. -/
def begin_ (s : Shared κ ε β) (flight : Nat) (c : Computation ε β) : Shared κ ε β :=
  { s with computations := (flight, c) :: s.computations }

variable [DecidableEq κ]

/-- Requests a key. -/
def request (s : Shared κ ε β) (now : Nat) (k : κ) : Cache.Request β × Shared κ ε β :=
  let (r, cache) := s.cache.request now k
  (r, { s with cache := cache })

/-- The result of a computation for a caller that has waited for it. -/
def collect (s : Shared κ ε β) (now : Nat) (k : κ) (flight : Nat) :
    Option (Except ε β × Cache.Completion κ) × Shared κ ε β :=
  match s.computation? flight with
  | none => (none, s)
  | some c =>
      let (completion, cache) := s.cache.complete now k flight c.result
      (some (c.result, completion), { s with cache := cache })

/-- Looks up a key without requesting it. -/
def peek (s : Shared κ ε β) (now : Nat) (k : κ) : Cache.Lookup β × Shared κ ε β :=
  let (r, cache) := s.cache.lookup now k
  (r, { s with cache := cache })

/-- Drops a key. -/
def invalidate (s : Shared κ ε β) (k : κ) : Shared κ ε β :=
  { s with cache := s.cache.invalidate k }

/-- Drops everything. -/
def clear (s : Shared κ ε β) : Shared κ ε β := { s with cache := s.cache.clear }

/-- Removes the entries that are over. -/
def cleanup (s : Shared κ ε β) (now : Nat) : Shared κ ε β :=
  { s with cache := s.cache.cleanup now }

end Shared

end SecretResolver
