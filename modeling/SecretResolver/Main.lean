/-
**The program.**

Reads the files that an invocation may want and the variables of the environment that are known,
runs it on them, and prints what comes of it.

Main definitions:

* `main`.
-/

import SecretResolver.Command.Run

set_option relaxedAutoImplicit false
set_option autoImplicit false

namespace SecretResolver

/-- The variables that give values to settings, and the one that holds a log filter. -/
def knownVariables : List String :=
  let caches := ["CACHE", "USER_SECRETS"].flatMap fun section_ =>
    ["MAXIMUM_SIZE", "EXPIRE_AFTER_WRITE_SECONDS", "EXPIRE_AFTER_ACCESS_SECONDS"].map fun name =>
      s!"SECRETS__{section_}__{name}"
  caches ++ ["SECRETS__LOGGING__LEVEL", "SECRETS__LOGGING__JSON", filterVariable]

/-- Why the system could not read a file. -/
def faultOf : IO.Error → FileFault
  | .noFileOrDirectory .. => .notFound
  | .inappropriateType _ code _ => if code == 21 then .isDirectory else .notDirectory
  | .permissionDenied _ code _ => .other s!"Permission denied (os error {code})"
  | e => .other (toString e)

/-- Reads a file. -/
def readFile (path : String) : IO (Except FileFault Bytes) := do
  if path.toList.contains '\x00' then return .error .nulByte
  try
    return .ok (← IO.FS.readBinFile path).toList
  catch e => return .error (faultOf e)

/-- Reads the files that an invocation may want. -/
def readFiles (i : Invocation) : IO ReadFile := do
  let files ← i.paths.mapM fun path => do return (path, ← readFile path)
  return fun path => (Entries.find? path files).getD (.error .notFound)

/-- The variables of the environment that are known and set. -/
def readEnvironment : IO Environment :=
  knownVariables.filterMapM fun name => do return (← IO.getEnv name).map fun value => (name, value)

/-- Does what is asked for. -/
def Request.perform (r : Request) : IO Outcome := do
  let read : ReadFile ←
    match r with
    | .invoke i => readFiles i
    | _ => pure fun _ => .error .notFound
  return r.run read (← readEnvironment)

end SecretResolver

/-- The program. -/
def main (args : List String) : IO UInt32 := do
  let outcome ← (SecretResolver.Request.parse args).perform
  (← IO.getStdout).putStr outcome.output
  (← IO.getStderr).putStr outcome.errors
  return UInt32.ofNat outcome.code
