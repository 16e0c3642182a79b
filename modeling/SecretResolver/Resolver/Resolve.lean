/-
**Resolving any reference.**

A text is resolved as a user secret reference if it is one, and as an encrypted reference
otherwise.  Several texts can be resolved at once: the calls are started in their order, and at
each moment at which something is ready all that can goes on, in their order again.

Main definitions:

* `Resolver.startText`, `Resolver.finishText`, `Resolver.resolveText`;
* `Resolver.resolveAll` — several texts at once;
* `Resolver.validateText`, `Resolver.validateUser`, `Resolver.validateExternal` — checks that
  resolve and throw the result away.
-/

import SecretResolver.Resolver.Secrets

set_option relaxedAutoImplicit false
set_option autoImplicit false

namespace SecretResolver

namespace Resolver

/-- The encrypted reference that a text is. -/
def encryptedRef (text : String) : Except SecretError EncryptedRef :=
  (EncryptedRef.parse text).mapError fun fault => .invalidFormat (.encrypted fault)

/-- The user secret reference that a text is. -/
def userRef (text : String) : Except SecretError UserRef :=
  (UserRef.parse text).mapError fun fault => .invalidFormat (.user fault)

/-! ### One text -/

/-- What a text that is being resolved waits for. -/
inductive TextWait where
  | file (w : FileWait)
  | secret (resource : String) (w : SecretWait)
  deriving Repr, DecidableEq

/-- When it is there. -/
def TextWait.readyAt : TextWait → Resolver → Option Nat
  | .file w, s => w.readyAt s
  | .secret _ w, s => w.readyAt s

/-- The text that bytes are, if there are any. -/
def textOfResult (result : Except SecretError Bytes) : Except SecretError String :=
  match result with
  | .error e => .error e
  | .ok bs => textOfBytes bs

/-- The text once what it waits for is there. -/
def finishText : TextWait → Action (Except SecretError String)
  | .file w => do return textOfResult (← finishDecrypt w)
  | .secret resource w => do giveField resource w.reference (← finishSecret w)

/-- Starts to resolve a user secret reference for a resource. -/
def startField (resource : String) (r : UserRef) : Action (Call TextWait String) := do
  match ← startSecret r with
  | .done result => return .done (← giveField resource r result)
  | .waits w => return .waits (.secret resource w)

/-- Starts to resolve an encrypted reference to a text. -/
def startExternal (r : EncryptedRef) : Action (Call TextWait String) := do
  match ← startDecrypt r with
  | .done result => return .done (textOfResult result)
  | .waits w => return .waits (.file w)

/-- Starts to resolve a text for a resource. -/
def startText (resource text : String) : Action (Call TextWait String) := do
  if UserRef.isReference text then
    match userRef text with
    | .error e => return .done (.error e)
    | .ok r => startField resource r
  else
    match encryptedRef text with
    | .error e => return .done (.error e)
    | .ok r => startExternal r

/-- Resolves a text for a resource. -/
def resolveText (resource text : String) : Action (Except SecretError String) := do
  await TextWait.readyAt finishText (← startText resource text)

/-! ### Several texts at once -/

/-- Lets a call go on that waits for something that is ready. -/
def poll : Call TextWait String → Action (Call TextWait String)
  | .done result => pure (.done result)
  | .waits w => do
      let s ← get
      if timeOf (w.readyAt s) s ≤ s.now then return .done (← finishText w)
      else return .waits w

/-- Lets all calls go on that can, in their order. -/
def pollAll : List (Call TextWait String) → Action (List (Call TextWait String))
  | [] => pure []
  | c :: cs => do
      let c ← poll c
      return c :: (← pollAll cs)

/-- Starts to resolve some texts, in their order. -/
def startAll (resource : String) : List String → Action (List (Call TextWait String))
  | [] => pure []
  | text :: texts => do
      let c ← poll (← startText resource text)
      return c :: (← startAll resource texts)

/-- When the first of some calls can go on. -/
def nextTime (s : Resolver) (calls : List (Call TextWait String)) : Option Nat :=
  calls.foldl
    (fun best c =>
      match c with
      | .done _ => best
      | .waits w =>
          let time := timeOf (w.readyAt s) s
          some (match best with
            | none => time
            | some b => min b time))
    none

/-- Waits for all calls. -/
def awaitAll : (fuel : Nat) → List (Call TextWait String) → Action (List (Call TextWait String))
  | 0, calls => pure calls
  | fuel + 1, calls => do
      match nextTime (← get) calls with
      | none => return calls
      | some time =>
          passTo time
          awaitAll fuel (← pollAll calls)

/-- The results of calls that have all come to their ends. -/
def results (calls : List (Call TextWait String)) : List (Except SecretError String) :=
  calls.filterMap fun
    | .done result => some result
    | .waits _ => none

/-- Resolves some texts at once for a resource. -/
def resolveAll (resource : String) (texts : List String) :
    Action (List (Except SecretError String)) := do
  let calls ← startAll resource texts
  return results (← awaitAll calls.length calls)

/-! ### Checks -/

/-- What is wrong with the field that a reference names, if it names one. -/
def fieldFault (r : UserRef) (secret : UserSecret) : Option SecretError :=
  match r.field? with
  | none => none
  | some name =>
      if (secret.get? name).isSome then none else some (.noSuchField r.origin name)

/-- What is wrong with a user secret reference. -/
def userFault (text : String) : Action (Option SecretError) := do
  match userRef text with
  | .error e => return some e
  | .ok r =>
      note (.validatingUser r.engine)
      match ← userSecret r with
      | .error e => return some e
      | .ok secret => return fieldFault r secret

/-- Checks a user secret reference. -/
def validateUser (text : String) : Action (Option SecretError) := do
  let fault ← userFault text
  if let some e := fault then note (.userInvalid e)
  return fault

/-- What is wrong with an encrypted reference. -/
def externalFault (text : String) : Action (Option SecretError) := do
  match encryptedRef text with
  | .error e => return some e
  | .ok r =>
      note (.validatingExternal r.engine)
      match ← decrypt r with
      | .error e => return some e
      | .ok _ => return none

/-- Checks an encrypted reference. -/
def validateExternal (text : String) : Action (Option SecretError) := do
  let fault ← externalFault text
  if let some e := fault then note (.externalInvalid e)
  return fault

/-- Checks a text; one that is no reference is in order. -/
def validateText (text : String) : Action (Option SecretError) := do
  if UserRef.isReference text then validateUser text
  else if EncryptedRef.isReference text then validateExternal text
  else return none

end Resolver

end SecretResolver
