/-
**What is logged.**

Everything that is told to whoever watches, in the order in which it happens.  Events name engines,
files and kinds of failure; neither a secret nor a whole reference is ever in one.

Main definitions:

* `LogEvent`, with `level`, `message` and `fields`.
-/

import SecretResolver.Failure

set_option relaxedAutoImplicit false
set_option autoImplicit false

namespace SecretResolver

/-- The kinds of engine. -/
inductive EngineKind where
  | storage
  /-- An engine whose references hold their values. -/
  | embedded
  | other
  deriving Repr, DecidableEq

namespace EngineKind

/-- All kinds. -/
def all : List EngineKind := [.storage, .embedded, .other]

/-- The name of a kind. -/
def name : EngineKind → String
  | .storage => "storage"
  | .embedded => "opaque"
  | .other => "other"

/-- The kind with a name. -/
def ofName? (s : String) : Option EngineKind := all.find? fun k => k.name == s

end EngineKind

/-- Something that is logged. -/
inductive LogEvent where
  | registering (engine : String) (kind : EngineKind)
  | cacheExpired
  | cacheHit
  | cacheJoined
  | cacheMissed
  | cacheEvicted
  | computationFailed (error : SecretError)
  | cacheCleared (count : Nat)
  | downloading (key : ObjectKey)
  | downloadFailed (key : ObjectKey) (error : SecretError)
  | readingFile (path : String)
  | decrypting (engine : String)
  | storageCleared (engine : String)
  | enginesCleared (count : Nat)
  | tracking (resource engine : String)
  | untracked (resource : String)
  | validatingUser (engine : String)
  | validatingExternal (engine : String)
  /-- A user secret reference has failed its check. -/
  | userInvalid (error : SecretError)
  | externalInvalid (error : SecretError)
  deriving Repr, DecidableEq

/-- How much an event matters, from the most to the least. -/
inductive LogLevel where
  | error
  | warn
  | info
  | debug
  | trace
  deriving Repr, DecidableEq

namespace LogLevel

/-- All levels, from the one that lets the least through. -/
def all : List LogLevel := [.error, .warn, .info, .debug, .trace]

/-- The name of a level. -/
def name : LogLevel → String
  | .error => "error"
  | .warn => "warn"
  | .info => "info"
  | .debug => "debug"
  | .trace => "trace"

/-- The place of a level among all, counted from one. -/
def rank : LogLevel → Nat
  | .error => 1
  | .warn => 2
  | .info => 3
  | .debug => 4
  | .trace => 5

end LogLevel

namespace LogEvent

/-- The level of an event. -/
def level : LogEvent → LogLevel
  | .registering .. => .info
  | .downloadFailed .. => .warn
  | .storageCleared .. => .info
  | .enginesCleared .. => .info
  | .userInvalid .. => .info
  | .externalInvalid .. => .info
  | _ => .debug

/-- The message of an event. -/
def message : LogEvent → String
  | .registering .. => "Registering secret engine"
  | .cacheExpired => "Cache entry expired"
  | .cacheHit => "Cache hit"
  | .cacheJoined => "Joining in-flight computation"
  | .cacheMissed => "Cache miss, starting computation"
  | .cacheEvicted => "Evicted least recently used cache entry"
  | .computationFailed .. => "Computation failed, not caching"
  | .cacheCleared .. => "Cleared secret cache"
  | .downloading .. => "Downloading secret file"
  | .downloadFailed .. => "Failed to download secret file"
  | .readingFile .. => "Reading secret file"
  | .decrypting .. => "Decrypting secret"
  | .storageCleared .. => "Cleared storage secret cache"
  | .enginesCleared .. => "Cleared secret engine caches"
  | .tracking .. => "Tracking user secret for resource"
  | .untracked .. => "Stopped tracking user secrets for resource"
  | .validatingUser .. => "Validating user secret reference"
  | .validatingExternal .. => "Validating external secret reference"
  | .userInvalid .. => "User secret reference failed validation"
  | .externalInvalid .. => "External secret reference failed validation"

/-- The fields of a file. -/
def keyFields (k : ObjectKey) : List (String × String) :=
  [("bucket", k.bucket), ("region", k.region), ("file", k.file)]

/-- The fields of an event. -/
def fields : LogEvent → List (String × String)
  | .registering engine kind => [("engine", engine), ("kind", kind.name)]
  | .computationFailed e => [("error_code", e.code)]
  | .cacheCleared count => [("count", toString count)]
  | .downloading key => keyFields key
  | .downloadFailed key e => keyFields key ++ [("error_code", e.code)]
  | .readingFile path => [("path", path)]
  | .decrypting engine => [("engine", engine)]
  | .storageCleared engine => [("engine", engine)]
  | .enginesCleared count => [("engines", toString count)]
  | .tracking resource engine => [("resource_id", resource), ("engine", engine)]
  | .untracked resource => [("resource_id", resource)]
  | .validatingUser engine => [("engine", engine)]
  | .validatingExternal engine => [("engine", engine)]
  | .userInvalid e => [("error_code", e.code)]
  | .externalInvalid e => [("error_code", e.code)]
  | _ => []

end LogEvent

end SecretResolver
