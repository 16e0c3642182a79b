/-
**Jobs in any order.**

Several callers ask one resolver for user secrets, for fields of them on behalf of resources, for
encrypted secrets, and for checks.  They take turns at it: a call begins, a call that has not returned
goes on or is given up, a resource is forgotten, caches are cleared, time passes, or somebody changes
what engines read.  Every list of moves is possible, and between any two steps of a call anything else
may be done: before its user secret is asked for, while it waits, and when it has got one and has done
nothing with it yet.

Main definitions:

* `Job`, `Answer` — what may be asked for, and what is returned;
* `Job.begin_`, `Ongoing.go` — the steps of a call;
* `Jobs` — a resolver with the calls that have not returned;
* `Jobs.Move`, `Jobs.Happening`, `Jobs.move` — what may be done, and what it does;
* `Jobs.machine`, `Jobs.after`, `Jobs.history` — the state after some moves, and what happened.

Main results:

* `Jobs.begin_cases`, `Jobs.go_cases` — what a turn of a call comes to.
-/

import SecretResolver.Machine
import SecretResolver.Resolver.Resolve

set_option relaxedAutoImplicit false
set_option autoImplicit false

namespace SecretResolver

open Resolver

/-! ### Calls -/

/-- What may be asked of a resolver. -/
inductive Job where
  /-- The field that a reference names, for a resource. -/
  | field (resource : String) (reference : UserRef)
  | secret (reference : UserRef)
  /-- The user secrets of all references that a resource has used, in the order that the references
  are put into. -/
  | each (resource : String) (order : List UserRef → List UserRef)
  /-- The check of a text, which may be a reference of either kind or none. -/
  | check (text : String)
  | checkUser (text : String)
  | checkExternal (text : String)
  | bytes (reference : EncryptedRef)
  | text (reference : EncryptedRef)

/-- What is returned. -/
inductive Answer where
  | field (result : Except SecretError String)
  | secret (result : Except SecretError UserSecret)
  /-- The references that were handed over with their user secrets, and why it ended early. -/
  | handed (secrets : List (UserRef × UserSecret)) (failure : Option SecretError)
  | checked (fault : Option SecretError)
  | bytes (result : Except SecretError Bytes)
  | text (result : Except SecretError String)

/-- How far a call has come. -/
inductive Phase where
  /-- It is about to ask for a user secret. -/
  | asks (reference : UserRef)
  | awaits (wait : SecretWait)
  /-- It has what has come of a reference, and has done nothing with it. -/
  | has (reference : UserRef) (result : Except SecretError UserSecret)
  | awaitsFile (wait : FileWait)
  | hasFile (result : Except SecretError Bytes)

/-- A call that has not returned. -/
structure Ongoing where
  job : Job
  phase : Phase
  /-- What has been handed over of the references of a resource. -/
  handed : List (UserRef × UserSecret)
  /-- The references of a resource that come after the one in hand. -/
  further : List UserRef

/-- What a step of a call leads to. -/
inductive Stage where
  | ongoing (o : Ongoing)
  | done (answer : Answer)

namespace Job

/-- The call at its first step. -/
def at_ (job : Job) (phase : Phase) : Ongoing := ⟨job, phase, [], []⟩

/-- Goes over to the next reference of a resource. -/
def next (job : Job) (handed : List (UserRef × UserSecret)) : List UserRef → Stage
  | [] => .done (.handed handed none)
  | r :: rs => .ongoing ⟨job, .asks r, handed, rs⟩

/-- Starts to resolve an encrypted reference. -/
def beginFile (job : Job) (r : EncryptedRef) : Action Stage := do
  match ← startDecrypt r with
  | .done result => return .ongoing (job.at_ (.hasFile result))
  | .waits w => return .ongoing (job.at_ (.awaitsFile w))

/-- Tells what is wrong with a reference, and logs it. -/
def faulty (invalid : SecretError → LogEvent) (fault : Option SecretError) : Action Stage := do
  if let some e := fault then note (invalid e)
  return .done (.checked fault)

/-- What a check finds wrong with what has come of a user secret reference. -/
def secretFault (r : UserRef) : Except SecretError UserSecret → Option SecretError
  | .error e => some e
  | .ok found => fieldFault r found

/-- What a check finds wrong with what has come of an encrypted reference. -/
def bytesFault : Except SecretError Bytes → Option SecretError
  | .error e => some e
  | .ok _ => none

/-- Begins the check of a user secret reference. -/
def beginCheckUser (job : Job) (s : String) : Action Stage := do
  match userRef s with
  | .error e => faulty .userInvalid (some e)
  | .ok r =>
      note (.validatingUser r.engine)
      return .ongoing (job.at_ (.asks r))

/-- Begins the check of an encrypted reference. -/
def beginCheckExternal (job : Job) (s : String) : Action Stage := do
  match encryptedRef s with
  | .error e => faulty .externalInvalid (some e)
  | .ok r =>
      note (.validatingExternal r.engine)
      job.beginFile r

/-- Begins a call. -/
def begin_ (job : Job) : Action Stage := do
  match job with
  | .field _ r => return .ongoing (job.at_ (.asks r))
  | .secret r => return .ongoing (job.at_ (.asks r))
  | .each resource order => return job.next [] (order ((← get).tracked resource))
  | .check s =>
      if UserRef.isReference s then job.beginCheckUser s
      else if EncryptedRef.isReference s then job.beginCheckExternal s
      else return .done (.checked none)
  | .checkUser s => job.beginCheckUser s
  | .checkExternal s => job.beginCheckExternal s
  | .bytes r => job.beginFile r
  | .text r => job.beginFile r

end Job

namespace Ongoing

/-- Does with a user secret what it was asked for. -/
def conclude (o : Ongoing) (r : UserRef) (result : Except SecretError UserSecret) :
    Action Stage := do
  match o.job with
  | .field resource r => return .done (.field (← giveField resource r result))
  | .each _ _ =>
      match result with
      | .error e => return .done (.handed o.handed (some e))
      | .ok secret => return o.job.next (o.handed ++ [(r, secret)]) o.further
  | .check _ | .checkUser _ => Job.faulty .userInvalid (Job.secretFault r result)
  | _ => return .done (.secret result)

/-- Does with an encrypted secret what it was asked for. -/
def concludeFile (o : Ongoing) (result : Except SecretError Bytes) : Action Stage := do
  match o.job with
  | .text _ => return .done (.text (textOfResult result))
  | .check _ | .checkExternal _ => Job.faulty .externalInvalid (Job.bytesFault result)
  | _ => return .done (.bytes result)

/-- Goes one step on with a call, if what it waits for is there. -/
def go (o : Ongoing) : Action Stage := do
  match o.phase with
  | .asks r =>
      match ← startSecret r with
      | .done result => return .ongoing { o with phase := .has r result }
      | .waits w => return .ongoing { o with phase := .awaits w }
  | .awaits w =>
      let s ← get
      if timeOf (w.readyAt s) s ≤ s.now then
        return .ongoing { o with phase := .has w.reference (← finishSecret w) }
      else return .ongoing o
  | .has r result => o.conclude r result
  | .awaitsFile w =>
      let s ← get
      if timeOf (w.readyAt s) s ≤ s.now then
        return .ongoing { o with phase := .hasFile (← finishDecrypt w) }
      else return .ongoing o
  | .hasFile result => o.concludeFile result

end Ongoing

/-! ### Moves -/

/-- A resolver with the calls that have not returned, by number in the order in which they began. -/
structure Jobs where
  resolver : Resolver
  ongoing : List (Nat × Ongoing)
  /-- The number of the next call, which is the number of those begun so far. -/
  nextCall : Nat

namespace Jobs

/-- What may be done in one turn: a call begins, goes on, or is given up; a resource is forgotten; the
cache of user secrets or those of all engines are cleared; time passes; another store or another vault
takes the place of the one there is. -/
inductive Move where
  | begin_ (job : Job)
  | go (call : Nat)
  | abort (call : Nat)
  | stop (resource : String)
  | clearSecrets
  | clearEngines
  | pass (ms : Nat)
  | restock (store : Store)
  | refill (vault : List (String × VaultSecret))

/-- What happens in one turn.  There is an answer when a call returns. -/
inductive Happening where
  | began (call : Nat) (job : Job) (answer : Option Answer)
  | went (call : Nat) (job : Job) (answer : Option Answer)
  /-- There is no such call any more. -/
  | idle (call : Nat)
  | aborted (call : Nat)
  /-- A resource was forgotten; whether it had used anything. -/
  | stopped (resource : String) (known : Bool)
  | cleared
  | passed (ms : Nat)
  | changed

/-- A resolver of which nothing has been asked. -/
def start (s : Resolver) : Jobs := ⟨s, [], 0⟩

/-- Begins a call. -/
def begin_ (s : Jobs) (job : Job) : Happening × Jobs :=
  let (stage, resolver) := job.begin_ s.resolver
  match stage with
  | .ongoing o =>
      (.began s.nextCall job none, ⟨resolver, Entries.put s.nextCall o s.ongoing, s.nextCall + 1⟩)
  | .done answer =>
      (.began s.nextCall job (some answer),
        { s with resolver := resolver, nextCall := s.nextCall + 1 })

/-- Goes one step on with a call. -/
def go (s : Jobs) (call : Nat) : Happening × Jobs :=
  match Entries.find? call s.ongoing with
  | none => (.idle call, s)
  | some o =>
      let (stage, resolver) := o.go s.resolver
      match stage with
      | .ongoing o' =>
          (.went call o.job none,
            { s with resolver := resolver, ongoing := Entries.put call o' s.ongoing })
      | .done answer =>
          (.went call o.job (some answer),
            { s with resolver := resolver, ongoing := Entries.drop call s.ongoing })

/-- Does something with the resolver alone. -/
def act (s : Jobs) (x : Action Unit) : Jobs := { s with resolver := (x s.resolver).2 }

/-- What a move does: what happens, and the state after it. -/
def move (s : Jobs) : Move → Happening × Jobs
  | .begin_ job => s.begin_ job
  | .go call => s.go call
  | .abort call => (.aborted call, { s with ongoing := Entries.drop call s.ongoing })
  | .stop resource =>
      let (known, resolver) := stopTracking resource s.resolver
      (.stopped resource known, { s with resolver := resolver })
  | .clearSecrets => (.cleared, s.act Resolver.clearSecrets)
  | .clearEngines => (.cleared, s.act Resolver.clearEngines)
  | .pass ms => (.passed ms, s.act (Resolver.pass ms))
  | .restock store => (.changed, s.act (modify fun s => { s with store := store }))
  | .refill vault => (.changed, s.act (modify fun s => { s with vault := vault }))

theorem move_begin (s : Jobs) (job : Job) : s.move (.begin_ job) = s.begin_ job := rfl

theorem move_go (s : Jobs) (call : Nat) : s.move (.go call) = s.go call := rfl

theorem move_stop (s : Jobs) (resource : String) :
    s.move (.stop resource) = (.stopped resource (stopTracking resource s.resolver).1,
      { s with resolver := (stopTracking resource s.resolver).2 }) := rfl

/-- A call that begins goes on, or returns at once. -/
theorem begin_cases (s : Jobs) (job : Job) :
    (∃ o resolver, job.begin_ s.resolver = (.ongoing o, resolver) ∧
      s.begin_ job = (.began s.nextCall job none,
        ⟨resolver, Entries.put s.nextCall o s.ongoing, s.nextCall + 1⟩)) ∨
    (∃ answer resolver, job.begin_ s.resolver = (.done answer, resolver) ∧
      s.begin_ job = (.began s.nextCall job (some answer),
        { s with resolver := resolver, nextCall := s.nextCall + 1 })) := by
  unfold begin_
  rcases job.begin_ s.resolver with ⟨stage, resolver⟩
  cases stage with
  | ongoing o => exact .inl ⟨o, resolver, rfl, rfl⟩
  | done answer => exact .inr ⟨answer, resolver, rfl, rfl⟩

/-- A call goes on, or returns, unless there is no such call. -/
theorem go_cases (s : Jobs) (call : Nat) :
    (Entries.find? call s.ongoing = none ∧ s.go call = (.idle call, s)) ∨
    (∃ o o' resolver, Entries.find? call s.ongoing = some o ∧
      o.go s.resolver = (.ongoing o', resolver) ∧
      s.go call = (.went call o.job none,
        { s with resolver := resolver, ongoing := Entries.put call o' s.ongoing })) ∨
    (∃ o answer resolver, Entries.find? call s.ongoing = some o ∧
      o.go s.resolver = (.done answer, resolver) ∧
      s.go call = (.went call o.job (some answer),
        { s with resolver := resolver, ongoing := Entries.drop call s.ongoing })) := by
  unfold go
  cases Entries.find? call s.ongoing with
  | none => exact .inl ⟨rfl, rfl⟩
  | some o =>
      dsimp only
      rcases hgo : o.go s.resolver with ⟨stage, resolver⟩
      cases stage with
      | ongoing o' => exact .inr (.inl ⟨o, o', resolver, rfl, hgo, rfl⟩)
      | done answer => exact .inr (.inr ⟨o, answer, resolver, rfl, hgo, rfl⟩)

/-! ### Histories -/

/-- The moves of those who ask a resolver. -/
def machine (s₀ : Resolver) : Machine Jobs Move Happening := ⟨start s₀, move⟩

/-- The state after some moves, of which the last one is given first. -/
def after (s₀ : Resolver) (ms : List Move) : Jobs := (machine s₀).after ms

/-- What happened in some moves, the last thing first. -/
def history (s₀ : Resolver) (ms : List Move) : List Happening := (machine s₀).history ms

end Jobs

end SecretResolver
