/-
**Decryptions in any order.**

Several callers resolve encrypted references with one resolver.  They take turns at it: a call
begins, a call that waits for its file goes on, a call is given up, the caches of all engines are
cleared, time passes, or somebody puts other files into the store.  Every list of moves is
possible; a call that goes on before its file is there just keeps waiting.

Main definitions:

* `Decryptions` — a resolver with the calls that wait;
* `Decryptions.Move`, `Decryptions.Happening`, `Decryptions.move` — what may be done, and what it
  does;
* `Decryptions.machine`, `Decryptions.after`, `Decryptions.history` — the state after some moves, and
  what happened.
-/

import SecretResolver.Machine
import SecretResolver.Resolver.Files

set_option relaxedAutoImplicit false
set_option autoImplicit false

namespace SecretResolver

/-- A resolver with the calls that wait for their files, by number in the order in which they
began. -/
structure Decryptions where
  resolver : Resolver
  waiting : List (Nat × Resolver.FileWait)
  /-- The number of the next call, which is the number of those begun so far. -/
  nextCall : Nat

namespace Decryptions

/-- What may be done in one turn: a call begins, goes on if it can, or is given up; the caches of all
engines are cleared; time passes; another store takes the place of the one there is. -/
inductive Move where
  | call (reference : EncryptedRef)
  | poll (call : Nat)
  | abort (call : Nat)
  | clear
  | pass (ms : Nat)
  | restock (store : Store)

/-- What happens in one turn.  A call that is idle could not go on. -/
inductive Happening where
  /-- A call began and returned at once. -/
  | answered (call : Nat) (reference : EncryptedRef) (answer : Except SecretError Bytes)
  /-- A call began and waits for a file that is being downloaded for others. -/
  | joined (call : Nat) (wait : Resolver.FileWait)
  /-- A call began, started a download and waits for it. -/
  | started (call : Nat) (wait : Resolver.FileWait) (download : Download)
  | idle (call : Nat)
  /-- A call returned after it had waited. -/
  | returned (call : Nat) (wait : Resolver.FileWait) (answer : Except SecretError Bytes)
  | aborted (call : Nat)
  | cleared
  | passed (ms : Nat)
  | restocked

/-- A resolver on which nothing has been called. -/
def start (s : Resolver) : Decryptions := ⟨s, [], 0⟩

/-! ### Moves -/

/-- Begins a call.  It has started a download if there is one more than before. -/
def call (s : Decryptions) (r : EncryptedRef) : Happening × Decryptions :=
  let (outcome, resolver) := Resolver.startDecrypt r s.resolver
  match outcome with
  | .done answer =>
      (.answered s.nextCall r answer,
        { s with resolver := resolver, nextCall := s.nextCall + 1 })
  | .waits w =>
      let what : Happening :=
        if resolver.downloads.length = s.resolver.downloads.length then .joined s.nextCall w
        else .started s.nextCall w (s.resolver.store.download w.key)
      (what, ⟨resolver, Entries.put s.nextCall w s.waiting, s.nextCall + 1⟩)

/-- Lets a call go on if what it waits for is there. -/
def poll (s : Decryptions) (call : Nat) : Happening × Decryptions :=
  match Entries.find? call s.waiting with
  | none => (.idle call, s)
  | some w =>
      if Resolver.timeOf (w.readyAt s.resolver) s.resolver ≤ s.resolver.now then
        let (answer, resolver) := Resolver.finishDecrypt w s.resolver
        (.returned call w answer,
          { s with resolver := resolver, waiting := Entries.drop call s.waiting })
      else (.idle call, s)

/-- What a move does: what happens, and the state after it. -/
def move (s : Decryptions) : Move → Happening × Decryptions
  | .call r => s.call r
  | .poll call => s.poll call
  | .abort call => (.aborted call, { s with waiting := Entries.drop call s.waiting })
  | .clear => (.cleared, { s with resolver := (Resolver.clearEngines s.resolver).2 })
  | .pass ms => (.passed ms, { s with resolver := (Resolver.pass ms s.resolver).2 })
  | .restock store => (.restocked, { s with resolver := { s.resolver with store := store } })

/-! ### Histories -/

/-- The moves of those who decrypt with a resolver. -/
def machine (s₀ : Resolver) : Machine Decryptions Move Happening := ⟨start s₀, move⟩

/-- The state after some moves, of which the last one is given first. -/
def after (s₀ : Resolver) (ms : List Move) : Decryptions := (machine s₀).after ms

/-- What happened in some moves, the last thing first. -/
def history (s₀ : Resolver) (ms : List Move) : List Happening := (machine s₀).history ms

end Decryptions

end SecretResolver
