/-
**The resolver: state and bookkeeping.**

A resolver holds its engines, what they read from, a cache of user secrets, and a ledger of the
user secrets that each resource has used.  It runs under one clock.  Whatever it does is an
`Action`: a function of its state that may also log.

Main definitions:

* `Resolver`, `Action`;
* `Resolver.register`, `Resolver.registerAll`, `Resolver.engineOf`;
* `Call` — the outcome of a call: its result, or what it has to wait for.
-/

import SecretResolver.Engine

set_option relaxedAutoImplicit false
set_option autoImplicit false

namespace SecretResolver

/-- The references that a resource has used. -/
abbrev Ledger := List (String × List UserRef)

/-- The state of a resolver. -/
structure Resolver where
  now : Nat
  /-- The engines by identifier, in the order in which they were added. -/
  engines : Table Engine
  store : Store
  vault : List (String × VaultSecret)
  secrets : Shared UserRef.Identity SecretError UserSecret
  ledger : Ledger
  /-- The files that were downloaded, the last one first. -/
  downloads : List ObjectKey
  lookups : Nat
  log : List LogEvent

/-- Something that a resolver does. -/
abbrev Action (α : Type) := StateM Resolver α

namespace Action

variable {α β : Type}

@[simp] theorem pure_apply (a : α) (s : Resolver) : (pure a : Action α) s = (a, s) := rfl

@[simp] theorem bind_apply (x : Action α) (f : α → Action β) (s : Resolver) :
    (x >>= f) s = f (x s).1 (x s).2 := rfl

@[simp] theorem map_apply (f : α → β) (x : Action α) (s : Resolver) :
    (f <$> x) s = (f (x s).1, (x s).2) := rfl

@[simp] theorem get_apply (s : Resolver) : (get : Action Resolver) s = (s, s) := rfl

@[simp] theorem modify_apply (f : Resolver → Resolver) (s : Resolver) :
    (modify f : Action Unit) s = ((), f s) := rfl

end Action

namespace Resolver

/-- A resolver without engines. -/
def empty (limits : CacheLimits) (store : Store) : Resolver :=
  ⟨0, .empty, store, [], .empty limits, [], [], 0, []⟩

/-- Logs an event. -/
def note (e : LogEvent) : Action Unit := modify fun s => { s with log := e :: s.log }

@[simp] theorem note_apply (e : LogEvent) (s : Resolver) :
    note e s = ((), { s with log := e :: s.log }) := rfl

/-! ### Engines -/

/-- Adds an engine, unless there is one with its identifier. -/
def register (e : Engine) : Action (Except SecretError Unit) := fun s =>
  match s.engines.add? e.identifier e with
  | none => (.error (.duplicateEngine e.identifier), s)
  | some engines =>
      (.ok (), { s with engines := engines, log := .registering e.identifier e.kind :: s.log })

/-- Adds engines up to the first one that cannot be added. -/
def registerAll : List Engine → Action (Except SecretError Unit)
  | [] => pure (.ok ())
  | e :: es => do
      match ← register e with
      | .error error => return .error error
      | .ok () => registerAll es

/-- The engine with an identifier. -/
def engineOf (s : Resolver) (id : String) : Except SecretError Engine :=
  match s.engines.get? id with
  | some e => .ok e
  | none => .error (.noSuchEngine id)

/-- The identifiers of the engines in their order. -/
def engineIds (s : Resolver) : List String :=
  s.engines.names.mergeSort fun a b => decide (a ≤ b)

/-- The engines in words. -/
def description (s : Resolver) : String :=
  "SecretEngineRegistry \x7b engines: [" ++ Text.commaList (s.engineIds.map Text.quote) ++ "] \x7d"

/-- Puts an engine in the place of the one with its identifier. -/
def replace (e : Engine) : Action Unit :=
  modify fun s => { s with engines := s.engines.put e.identifier e }

/-! ### Calls -/

/-- The outcome of a call: its result, or what it waits for. -/
inductive Call (ω α : Type) where
  | done (result : Except SecretError α)
  /-- A computation that has to come to its end first. -/
  | waits (wait : ω)

/-- The time of a computation that is waited for, not before now. -/
def timeOf (readyAt : Option Nat) (s : Resolver) : Nat := max s.now (readyAt.getD s.now)

/-- Lets time pass up to some moment. -/
def passTo (time : Nat) : Action Unit := modify fun s => { s with now := max s.now time }

/-- Lets some time pass. -/
def pass (ms : Nat) : Action Unit := modify fun s => { s with now := s.now + ms }

/-- Waits for the result of a call.  `readyAt` tells when what it waits for is ready, and `finish`
goes on from there. -/
def await {ω α : Type} (readyAt : ω → Resolver → Option Nat)
    (finish : ω → Action (Except SecretError α)) : Call ω α → Action (Except SecretError α)
  | .done result => pure result
  | .waits w => do
      passTo (timeOf (readyAt w (← get)) (← get))
      finish w

/-! ### What caches log -/

/-- Logs what a request for a key has shown. -/
def noteRequest {β : Type} : Cache.Request β → Action Unit
  | .hit _ => note .cacheHit
  | .joined _ => note .cacheJoined
  | .started _ expired => do
      if expired then note .cacheExpired
      note .cacheMissed

/-- Logs what became of the result of a computation. -/
def noteCompletion {κ β : Type} (result : Except SecretError β) :
    Cache.Completion κ → Action Unit
  | .stale => pure ()
  | .stored displaced => if displaced.isSome then note .cacheEvicted else pure ()
  | .failed =>
      match result with
      | .error e => note (.computationFailed e)
      | .ok _ => pure ()

end Resolver

end SecretResolver
