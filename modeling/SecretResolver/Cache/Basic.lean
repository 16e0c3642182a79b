/-
**A cache with limits and computations in flight.**

Entries are kept with the most recently used first; when there is no room the last one goes.  An
entry is gone as soon as one of its two lifetimes is over.  For a key without an entry there may be
a computation in flight, known by a number: whoever asks for the key then joins it.  A computation
that was discarded, by dropping its key or clearing the cache, is never stored.

Main definitions:

* `Cache`, `Cache.Entry`;
* `Cache.lookup`, `Cache.request` — looking up, and starting or joining a computation on a miss;
* `Cache.complete` — retiring a computation;
* `Cache.invalidate`, `Cache.clear`, `Cache.cleanup`.
-/

import SecretResolver.Cache.Limits
import SecretResolver.Table

set_option relaxedAutoImplicit false
set_option autoImplicit false

namespace SecretResolver

universe u v w

namespace Cache

/-- A stored value with the times of its writing and its last use. -/
structure Entry (β : Type v) where
  value : β
  writtenAt : Nat
  accessedAt : Nat
  deriving Repr, DecidableEq

/-- Whether one of the two lifetimes of an entry is over. -/
def Entry.isExpired {β : Type v} (e : Entry β) (l : CacheLimits) (now : Nat) : Bool :=
  l.afterWrite ≤ now - e.writtenAt || l.afterAccess ≤ now - e.accessedAt

end Cache

/-- The state of a cache. -/
structure Cache (κ : Type u) (β : Type v) where
  limits : CacheLimits
  entries : List (κ × Cache.Entry β)
  /-- The keys for which a computation is in flight, each with its number. -/
  inFlight : List (κ × Nat)
  /-- The number of the next computation, which is the number of those started so far. -/
  nextFlight : Nat
  deriving Repr, DecidableEq

namespace Cache

variable {κ : Type u} {β : Type v}

/-- The cache that holds nothing. -/
def empty (l : CacheLimits) : Cache κ β := ⟨l, [], [], 0⟩

/-- The number of entries, those included that are over and not yet removed. -/
def size (c : Cache κ β) : Nat := c.entries.length

variable [DecidableEq κ]

/-! ### Looking up -/

/-- What looking up a key shows: a value, an entry that is over and is removed, or nothing. -/
inductive Lookup (β : Type v) where
  | hit (value : β)
  | expired
  | absent
  deriving Repr, DecidableEq

/-- The value that was found. -/
def Lookup.value? : Lookup β → Option β
  | .hit value => some value
  | _ => none

/-- Looks up a key; a hit makes its entry the most recently used one. -/
def lookup (c : Cache κ β) (now : Nat) (k : κ) : Lookup β × Cache κ β :=
  match Entries.find? k c.entries with
  | none => (.absent, c)
  | some e =>
      let others := Entries.drop k c.entries
      -- an entry that is over goes when it is looked up, not by itself
      if e.isExpired c.limits now then (.expired, { c with entries := others })
      else (.hit e.value, { c with entries := (k, { e with accessedAt := now }) :: others })

/-- What a request for a key leads to. -/
inductive Request (β : Type v) where
  | hit (value : β)
  | joined (flight : Nat)
  /-- A computation has to be started; `expired` says that an entry was removed. -/
  | started (flight : Nat) (expired : Bool)
  deriving Repr, DecidableEq

/-- Requests a key. -/
def request (c : Cache κ β) (now : Nat) (k : κ) : Request β × Cache κ β :=
  let begin_ (expired : Bool) (c : Cache κ β) : Request β × Cache κ β :=
    match Entries.find? k c.inFlight with
    | some flight => (.joined flight, c)
    | none =>
        (.started c.nextFlight expired,
          { c with inFlight := (k, c.nextFlight) :: c.inFlight, nextFlight := c.nextFlight + 1 })
  -- the lookup comes first, so an entry that is over goes even if the request joins
  match c.lookup now k with
  | (.hit value, c) => (.hit value, c)
  | (.expired, c) => begin_ true c
  | (.absent, c) => begin_ false c

/-! ### Retiring computations -/

/-- What became of the result of a computation: it is stale if the computation was discarded or retired
before, and a failure is not stored. -/
inductive Completion (κ : Type u) where
  | stale
  /-- It is stored; `displaced` is the key whose entry had to go for it, if there was one. -/
  | stored (displaced : Option κ)
  | failed
  deriving Repr, DecidableEq

/-- The key whose entry goes when a value is stored under `k`: that is `k` if it has an entry, and
otherwise, without room for one more, the least recently used one. -/
def displaced? (c : Cache κ β) (k : κ) : Option κ :=
  if k ∈ Entries.names c.entries then some k
  else (c.entries.drop (c.limits.capacity - 1)).head?.map Prod.fst

/-- Stores a value as the most recently used one. -/
def store (c : Cache κ β) (now : Nat) (k : κ) (value : β) : Option κ × Cache κ β :=
  -- the entry of the key itself makes room, so no other one goes for it
  let kept := (Entries.drop k c.entries).take (c.limits.capacity - 1)
  (c.displaced? k, { c with entries := (k, ⟨value, now, now⟩) :: kept })

/-- Retires a computation that has come to an end. -/
def complete {ε : Type w} (c : Cache κ β) (now : Nat) (k : κ) (flight : Nat)
    (result : Except ε β) : Completion κ × Cache κ β :=
  -- the number tells this computation from a later one for the same key
  if Entries.find? k c.inFlight = some flight then
    let c := { c with inFlight := Entries.drop k c.inFlight }
    match result with
    | .ok value =>
        let (displaced, c) := c.store now k value
        (.stored displaced, c)
    | .error _ => (.failed, c)
  else (.stale, c)

/-! ### Removing -/

/-- Drops a key, with its entry and its computation. -/
def invalidate (c : Cache κ β) (k : κ) : Cache κ β :=
  { c with entries := Entries.drop k c.entries, inFlight := Entries.drop k c.inFlight }

/-- Drops everything. -/
def clear (c : Cache κ β) : Cache κ β := { c with entries := [], inFlight := [] }

/-- Removes the entries that are over. -/
def cleanup (c : Cache κ β) (now : Nat) : Cache κ β :=
  { c with entries := c.entries.filter fun e => !e.2.isExpired c.limits now }

end Cache

end SecretResolver
