/-
**Resolving user secret references.**

User secrets go through a cache of the resolver that knows references by their identity, so that
the order of parameters does not matter.  What a resource gets out of a user secret is written into
a ledger, once for each reference.

Main definitions:

* `Resolver.startSecret`, `Resolver.finishSecret`, `Resolver.userSecret`;
* `Resolver.fieldFor` — the field that a reference names, for a resource;
* `Resolver.tracked`, `Resolver.stopTracking`, `Resolver.forEachTracked`.
-/

import SecretResolver.Resolver.Files

set_option relaxedAutoImplicit false
set_option autoImplicit false

namespace SecretResolver

namespace Resolver

/-! ### User secrets -/

/-- A reference that waits for its user secret. -/
structure SecretWait where
  reference : UserRef
  flight : Nat
  deriving Repr, DecidableEq

/-- When the user secret that is waited for is there. -/
def SecretWait.readyAt (w : SecretWait) (s : Resolver) : Option Nat := s.secrets.readyAt? w.flight

/-- The secret of a vault that a reference names. -/
def openVault (r : UserRef) : Action (Computation SecretError UserSecret) := do
  let name := (r.get? VaultSecret.nameParameter).getD ""
  modify fun s => { s with lookups := s.lookups + 1 }
  let s ← get
  match Entries.find? name s.vault with
  | none => return ⟨s.now, .error (.decryption (.other s!"no secret named '{name}'"))⟩
  | some secret => return ⟨s.now + secret.delay, secret.open_⟩

/-- Hands a reference to an engine without checking it. -/
def computeSecret (e : Engine) (r : UserRef) : Action (Computation SecretError UserSecret) := do
  match e with
  | .embedded => return ⟨(← get).now, .ok (Embedded.secret r)⟩
  | .vault _ => openVault r
  | _ => return ⟨(← get).now, e.unsupported Engine.userSecrets⟩

/-- Hands a reference to an engine that checks it first. -/
def computeChecked (e : Engine) (r : UserRef) : Action (Computation SecretError UserSecret) := do
  match e.validateUser r with
  | .error error => return ⟨(← get).now, .error error⟩
  | .ok () => computeSecret e r

/-- Starts to resolve a reference. -/
def startSecret (r : UserRef) : Action (Call SecretWait UserSecret) := do
  let s ← get
  match s.engineOf r.engine with
  | .error e => return .done (.error e)
  | .ok engine =>
      let (request, secrets) := s.secrets.request s.now r.identity
      modify fun s => { s with secrets := secrets }
      noteRequest request
      match request with
      | .hit secret => return .done (.ok secret)
      | .joined flight => return .waits ⟨r, flight⟩
      | .started flight _ =>
          let c ← computeChecked engine r
          modify fun s => { s with secrets := s.secrets.begin_ flight c }
          return .waits ⟨r, flight⟩

/-- A call that waits for a user secret waits for that of its own reference. -/
theorem reference_of_startSecret {r : UserRef} {w : SecretWait} {s : Resolver}
    (h : (startSecret r s).1 = .waits w) : w.reference = r := by
  simp only [startSecret, Action.bind_apply, Action.get_apply] at h
  cases hengine : s.engineOf r.engine with
  | error e =>
      rw [hengine] at h
      exact nomatch h
  | ok engine =>
      rcases hrequest : s.secrets.request s.now r.identity with ⟨request, secrets⟩
      rw [hengine] at h
      simp only [hrequest] at h
      cases request with
      | hit secret => exact nomatch h
      | joined flight => rw [← Call.waits.inj h]
      | started flight expired => rw [← Call.waits.inj h]

/-- The user secret that was waited for. -/
def finishSecret (w : SecretWait) : Action (Except SecretError UserSecret) := do
  let s ← get
  match s.secrets.collect s.now w.reference.identity w.flight with
  | (none, _) => return .error (.noSuchEngine w.reference.engine)
  | (some (result, completion), secrets) =>
      modify fun s => { s with secrets := secrets }
      noteCompletion result completion
      return result

/-- Resolves a reference. -/
def userSecret (r : UserRef) : Action (Except SecretError UserSecret) := do
  await SecretWait.readyAt finishSecret (← startSecret r)

/-- Resolves a reference with a given engine, whatever engine it names, without checking it. -/
def userSecretWith (e : Engine) (r : UserRef) : Action (Except SecretError UserSecret) := do
  let c ← computeSecret e r
  passTo c.readyAt
  return c.result

/-- Clears the cache of user secrets. -/
def clearSecrets : Action Unit := do
  let secrets := (← get).secrets
  modify fun s => { s with secrets := secrets.clear }
  note (.cacheCleared secrets.cache.size)

/-! ### The ledger -/

/-- The references that a resource has used. -/
def tracked (s : Resolver) (resource : String) : List UserRef :=
  (Entries.find? resource s.ledger).getD []

/-- Whether a resource has used a user secret. -/
def isTracking (s : Resolver) (resource : String) : Bool :=
  (Entries.find? resource s.ledger).isSome

/-- Adds a reference, unless an equal one is there. -/
def insertRef (r : UserRef) (rs : List UserRef) : List UserRef :=
  if rs.any fun r' => r'.sameAs r then rs else rs ++ [r]

/-- Writes down that a resource has used a user secret. -/
def track (resource : String) (r : UserRef) : Action Unit := do
  modify fun s =>
    { s with ledger := Entries.put resource (insertRef r (s.tracked resource)) s.ledger }
  note (.tracking resource r.engine)

/-- Forgets a resource; whether it had used anything. -/
def stopTracking (resource : String) : Action Bool := do
  let known := (← get).isTracking resource
  if known then
    modify fun s => { s with ledger := Entries.drop resource s.ledger }
    note (.untracked resource)
  return known

/-- The field of a user secret that a reference names, an empty name if it names none. -/
def fieldOf (r : UserRef) (secret : UserSecret) : Except SecretError String :=
  let name := r.field?.getD ""
  match secret.get? name with
  | some value => .ok value
  | none => .error (.noSuchField r.origin name)

/-- Hands the field that a reference names to a resource. -/
def giveField (resource : String) (r : UserRef) (result : Except SecretError UserSecret) :
    Action (Except SecretError String) := do
  match result with
  | .error e => return .error e
  | .ok secret =>
      match fieldOf r secret with
      | .error e => return .error e
      | .ok value =>
          track resource r
          return .ok value

/-- Resolves a reference to the field that it names, for a resource. -/
def fieldFor (resource : String) (r : UserRef) : Action (Except SecretError String) := do
  giveField resource r (← userSecret r)

/-- Resolves some references one after the other, up to the first that fails. -/
def secretsOf : List UserRef → Action (Except SecretError (List (UserRef × UserSecret)))
  | [] => pure (.ok [])
  | r :: rs => do
      match ← userSecret r with
      | .error e => return .error e
      | .ok secret =>
          match ← secretsOf rs with
          | .error e => return .error e
          | .ok more => return .ok ((r, secret) :: more)

/-- The references that a resource has used, with their user secrets. -/
def forEachTracked (resource : String) :
    Action (Except SecretError (List (UserRef × UserSecret))) := do
  secretsOf ((← get).tracked resource)

end Resolver

end SecretResolver
