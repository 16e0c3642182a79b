/-
**Resolving encrypted references.**

An encrypted reference goes to the engine that it names, which checks it first.  A storage engine
downloads a file once for all references that lead into it and are asked for while it is under way
or in the cache, and takes the wanted part out of it for each of them.

Main definitions:

* `Resolver.requestFile`, `Resolver.collectFile` — a file through the cache of its engine;
* `Resolver.startEngine`, `Resolver.startDecrypt`, `Resolver.finishDecrypt`;
* `Resolver.decrypt`, `Resolver.decryptText`, `Resolver.decryptWith`.
-/

import SecretResolver.Resolver.Basic

set_option relaxedAutoImplicit false
set_option autoImplicit false

namespace SecretResolver

namespace Resolver

/-- A reference that waits for the download of its file. -/
structure FileWait where
  engine : String
  reference : EncryptedRef
  key : ObjectKey
  flight : Nat
  deriving Repr, DecidableEq

/-- The cache of a storage engine. -/
def filesOf? (s : Resolver) (engine : String) : Option (Shared ObjectKey SecretError Bytes) :=
  match s.engines.get? engine with
  | some (.storage _ files) => some files
  | _ => none

/-- When the file that is waited for is there. -/
def FileWait.readyAt (w : FileWait) (s : Resolver) : Option Nat :=
  (s.filesOf? w.engine).bind fun files => files.readyAt? w.flight

/-- Starts the download of a file. -/
def startDownload (key : ObjectKey) : Action (Computation SecretError Bytes) := do
  note (.downloading key)
  let s ← get
  let d := s.store.download key
  if let some path := d.path then note (.readingFile path)
  modify fun s => { s with downloads := key :: s.downloads }
  return ⟨s.now + d.delay, d.result⟩

/-- Requests a file from a storage engine: its contents, or the number of the download to wait
for. -/
def requestFile (id : String) (files : Shared ObjectKey SecretError Bytes) (key : ObjectKey) :
    Action (Bytes ⊕ Nat) := do
  let (request, files) := files.request (← get).now key
  noteRequest request
  match request with
  | .hit contents =>
      replace (.storage id files)
      return .inl contents
  | .joined flight =>
      replace (.storage id files)
      return .inr flight
  | .started flight _ =>
      let download ← startDownload key
      replace (.storage id (files.begin_ flight download))
      return .inr flight

/-- Logs a download that has failed; the caller that retires it does so. -/
def noteDownload (key : ObjectKey) (result : Except SecretError Bytes)
    (completion : Cache.Completion ObjectKey) : Action Unit :=
  match result, completion with
  | .error e, .failed => note (.downloadFailed key e)
  | _, _ => pure ()

/-- The file that was waited for. -/
def collectFile (w : FileWait) : Action (Except SecretError Bytes) := do
  let s ← get
  match s.filesOf? w.engine with
  | none => return .error (.noSuchEngine w.engine)
  | some files =>
      match files.collect s.now w.key w.flight with
      | (none, _) => return .error (.fetch w.key .noObject)
      | (some (result, completion), files) =>
          replace (.storage w.engine files)
          noteDownload w.key result completion
          noteCompletion result completion
          return result

/-- What a reference asks for once its file is there. -/
def finishDecrypt (w : FileWait) : Action (Except SecretError Bytes) := do
  match ← collectFile w with
  | .error e => return .error e
  | .ok contents => return Location.part w.reference contents

/-- Hands a reference to an engine without checking it. -/
def startEngine (e : Engine) (r : EncryptedRef) : Action (Call FileWait Bytes) := do
  match e with
  | .embedded => return .done (Embedded.bytes r)
  | .vault _ => return .done (e.unsupported "encrypted secrets")
  | .echo _ => return .done (.ok (Utf8.ofString ("minimal:" ++ r.text)))
  | .storage id files =>
      match Location.key r with
      | .error error => return .done (.error error)
      | .ok key =>
          match ← requestFile id files key with
          | .inl contents => return .done (Location.part r contents)
          | .inr flight => return .waits ⟨id, r, key, flight⟩

/-- Starts to resolve a reference with the engine that it names. -/
def startDecrypt (r : EncryptedRef) : Action (Call FileWait Bytes) := do
  match (← get).engineOf r.engine with
  | .error e => return .done (.error e)
  | .ok engine =>
      match engine.validate r with
      | .error e => return .done (.error e)
      | .ok () =>
          note (.decrypting engine.identifier)
          startEngine engine r

/-- Resolves a reference. -/
def decrypt (r : EncryptedRef) : Action (Except SecretError Bytes) := do
  await FileWait.readyAt finishDecrypt (← startDecrypt r)

/-- Resolves a reference to a text. -/
def decryptText (r : EncryptedRef) : Action (Except SecretError String) := do
  match ← decrypt r with
  | .error e => return .error e
  | .ok bs => return textOfBytes bs

/-- Resolves a reference with a given engine, whatever engine it names, without checking it. -/
def decryptWith (e : Engine) (r : EncryptedRef) : Action (Except SecretError Bytes) := do
  await FileWait.readyAt finishDecrypt (← startEngine e r)

/-! ### Caches of engines -/

/-- Clears the cache of an engine, if it has one. -/
def clearEngine : Engine → Action Unit
  | .storage id files => do
      note (.cacheCleared files.cache.size)
      replace (.storage id files.clear)
      note (.storageCleared id)
  | _ => pure ()

/-- Clears the caches of all engines. -/
def clearEngines : Action Unit := do
  let engines := (← get).engines
  for e in engines.entries do
    clearEngine e.2
  note (.enginesCleared engines.size)

end Resolver

end SecretResolver
