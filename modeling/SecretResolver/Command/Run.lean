/-
**Running commands.**

A command runs with settings from a file and the environment, an engine for files below a
directory, and the engine whose references hold their values.  It prints its result, or a failure,
with its cause if there is one.

Main definitions:

* `Resolver.ofFiles` — the resolver of the command line;
* `Complaint`, `Outcome` — failures, and what a run leaves behind;
* `Invocation.run`, `Request.run` — what comes of an invocation.
-/

import SecretResolver.Command.Arguments
import SecretResolver.Command.Listing
import SecretResolver.Log.Filter
import SecretResolver.Resolver.Resolve
import SecretResolver.Settings.File

set_option relaxedAutoImplicit false
set_option autoImplicit false

namespace SecretResolver

/-! ### The resolver -/

/-- The identifier of the engine for files. -/
def fileEngine : String := "file"

/-- The resolver for files below a directory. -/
def Resolver.ofFiles (s : Settings) (root : String) (read : ReadFile) : Resolver :=
  let start := Resolver.empty s.userSecrets.limits (.files root read)
  let engines := [Engine.storage fileEngine (.empty s.cache.limits), Engine.embedded]
  (Resolver.registerAll engines start).2

/-! ### Outcomes -/

/-- A failure as it is told to whoever gave the command. -/
structure Complaint where
  message : String
  cause : Option String
  deriving Repr, DecidableEq

/-- A text with its further lines indented like the first one. -/
def indented (s : String) : String :=
  let lines := (Text.splitAll '\n' s.toList).map fun l => "    " ++ String.ofList l
  String.intercalate "\n" lines

/-- A complaint in words. -/
def Complaint.text (c : Complaint) : String :=
  match c.cause with
  | none => s!"Error: {c.message}\n"
  | some cause => s!"Error: {c.message}\n\nCaused by:\n{indented cause}\n"

/-- A failure without more to be said. -/
def Complaint.plain (e : SecretError) : Complaint := ⟨e.message, none⟩

/-- What a run leaves behind. -/
structure Outcome where
  code : Nat
  output : String
  errors : String
  deriving Repr, DecidableEq

/-- The outcome of a result. -/
def Outcome.ofResult : Except Complaint String → Outcome
  | .ok text => ⟨0, text, ""⟩
  | .error c => ⟨1, "", c.text⟩

/-! ### Commands -/

namespace Command

/-- A failure of a resolver as a complaint. -/
def plainly {α : Type} (r : Except SecretError α) : Except Complaint α := r.mapError .plain

/-- A text on a line. -/
def printed (s : String) : String := s ++ "\n"

/-- The user secret of a reference, written in an encoding. -/
def shownSecret (reference encoding : String) : Action (Except SecretError String) := do
  match Resolver.userRef reference with
  | .error e => return .error e
  | .ok r =>
      match ← Resolver.userSecret r with
      | .error e => return .error e
      | .ok secret =>
          match secret.payload.encode encoding with
          | .error e => return .error e
          | .ok bs => return textOfBytes bs

/-- A text without the blanks at its end. -/
def withoutEnd (s : String) : String := String.ofList (Text.trimEnd s.toList)

/-- What is wrong with a reference. -/
def checked (reference : String) : Action (Except Complaint String) := do
  if !UserRef.isReference reference && !EncryptedRef.isReference reference then
    return .error ⟨"Not a secret reference", none⟩
  match ← Resolver.validateText reference with
  | none => return .ok (printed "OK")
  | some e => return .error ⟨"Reference failed validation", some e.message⟩

/-- The reference that holds a value. -/
def encrypted (s : Resolver) (plaintext : String) : Except SecretError String :=
  match s.engineOf Embedded.identifier with
  | .error e => .error e
  | .ok engine => (engine.encrypt plaintext).map EncryptedRef.text

/-- The engines of a resolver in the order of their identifiers. -/
def listing (s : Resolver) : Listing := .ofEngines (s.engineIds.filterMap s.engines.get?)

/-- Runs a command: what it prints, or its complaint. -/
def run : Command → Action (Except Complaint String)
  | .resolve reference resource => do
      return plainly ((← Resolver.resolveText resource reference).map printed)
  | .present reference encoding => do
      return plainly ((← shownSecret reference encoding).map fun s => printed (withoutEnd s))
  | .check reference => checked reference
  | .encrypt plaintext => do return plainly ((encrypted (← get) plaintext).map printed)
  | .engines format => do
      match OutputFormat.ofName? format with
      | none => return .error ⟨OutputFormat.unknown format, none⟩
      | some f => return .ok ((listing (← get)).write f)

end Command

/-! ### Invocations -/

/-- The variable of the environment that holds a log filter. -/
def filterVariable : String := "RUST_LOG"

/-- The settings of an invocation. -/
def Invocation.settings (i : Invocation) (read : ReadFile) (env : Environment) :
    Except Complaint Settings :=
  match Settings.load read i.config env with
  | .error e => .error ⟨"Failed to load secrets configuration", some e.message⟩
  | .ok s =>
      let level := if i.verbose then "debug" else s.logging.level
      match LogFilter.inForce (Entries.find? filterVariable env) level with
      | .error e => .error (.plain e)
      | .ok _ => .ok s

/-- Runs an invocation. -/
def Invocation.run (i : Invocation) (read : ReadFile) (env : Environment) : Outcome :=
  .ofResult (match i.settings read env with
    | .error c => .error c
    | .ok s => (i.command.run (Resolver.ofFiles s i.root read)).1)

/-- How the program is used. -/
def usage : String := "Usage: secret-engine [OPTIONS] <COMMAND>\n"

/-- The version of the program. -/
def versionText : String := "secret-engine 0.2.2\n"

/-- Does what is asked for. -/
def Request.run (r : Request) (read : ReadFile) (env : Environment) : Outcome :=
  match r with
  | .invoke i => i.run read env
  | .version => ⟨0, versionText, ""⟩
  | .help => ⟨0, usage, ""⟩
  | .misuse => ⟨2, "", usage⟩

/-! ### What is read -/

/-- The file that an encrypted reference leads to below a directory. -/
def referencePath? (root reference : String) : Option String :=
  match Resolver.encryptedRef reference with
  | .error _ => none
  | .ok r =>
      match Location.key r with
      | .error _ => none
      | .ok key => (Store.pathIn root key).toOption

/-- The reference of a command. -/
def Command.reference? : Command → Option String
  | .resolve reference _ => some reference
  | .present reference _ => some reference
  | .check reference => some reference
  | _ => none

/-- All files that an invocation may want to read. -/
def Invocation.paths (i : Invocation) : List String :=
  (i.config.map SettingsFile.candidates).getD [] ++
    (i.command.reference?.bind (referencePath? i.root)).toList

end SecretResolver
