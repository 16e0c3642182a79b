/-
**Reading settings from JSON.**

All settings must be there and have their types.  A section may be an object or an array.

Main definitions:

* `CacheSettings.reader`, `LogSettings.reader`, `Settings.reader`;
* `Settings.read` — the settings that a JSON text holds.
-/

import SecretResolver.Document.Decoding
import SecretResolver.Json.Typed
import SecretResolver.Settings.Basic

set_option relaxedAutoImplicit false
set_option autoImplicit false

namespace SecretResolver

/-! ### Caches -/

/-- Settings of a cache that are being read. -/
structure CacheSettings.Draft where
  /-- The greatest number of entries, once it is read. -/
  maximumSize : Option Nat
  afterWriteSeconds : Option Nat
  /-- The life after the last look, once it is read. -/
  afterAccessSeconds : Option Nat
  deriving Repr, DecidableEq

namespace CacheSettings

/-- The fields of the settings of a cache. -/
def fields : List (Json.Field Draft) := [
  ⟨"maximum_size", fun d => d.maximumSize.isSome, fun d bs =>
    Json.mapResult (fun n => { d with maximumSize := some n }) (Json.typedNatural bs)⟩,
  ⟨"expire_after_write_seconds", fun d => d.afterWriteSeconds.isSome, fun d bs =>
    Json.mapResult (fun n => { d with afterWriteSeconds := some n }) (Json.typedNatural bs)⟩,
  ⟨"expire_after_access_seconds", fun d => d.afterAccessSeconds.isSome, fun d bs =>
    Json.mapResult (fun n => { d with afterAccessSeconds := some n }) (Json.typedNatural bs)⟩]

/-- The settings of a draft that is complete. -/
def ofDraft? (d : Draft) : Option CacheSettings := do
  return ⟨← d.maximumSize, ← d.afterWriteSeconds, ← d.afterAccessSeconds⟩

/-- Reads the settings of a cache. -/
def reader : Json.Reader CacheSettings := Json.record fields ⟨none, none, none⟩ ofDraft?

end CacheSettings

/-! ### The log -/

/-- Settings of the log that are being read. -/
structure LogSettings.Draft where
  level : Option String
  /-- Whether events are written as JSON, once it is read. -/
  json : Option Bool
  deriving Repr, DecidableEq

namespace LogSettings

/-- The fields of the settings of the log. -/
def fields : List (Json.Field Draft) := [
  ⟨"level", fun d => d.level.isSome, fun d bs =>
    Json.mapResult (fun s => { d with level := some s }) (Json.typedText bs)⟩,
  ⟨"json", fun d => d.json.isSome, fun d bs =>
    Json.mapResult (fun b => { d with json := some b }) (Json.typedFlag bs)⟩]

/-- The settings of a draft that is complete. -/
def ofDraft? (d : Draft) : Option LogSettings := do return ⟨← d.level, ← d.json⟩

/-- Reads the settings of the log. -/
def reader : Json.Reader LogSettings := Json.record fields ⟨none, none⟩ ofDraft?

end LogSettings

/-! ### All settings -/

/-- Settings that are being read. -/
structure Settings.Draft where
  /-- The cache of each storage engine, once it is read. -/
  cache : Option CacheSettings
  userSecrets : Option CacheSettings
  logging : Option LogSettings
  deriving Repr, DecidableEq

namespace Settings

/-- The sections of the settings. -/
def fields : List (Json.Field Draft) := [
  ⟨"cache", fun d => d.cache.isSome, fun d bs =>
    Json.mapResult (fun s => { d with cache := some s }) (CacheSettings.reader bs)⟩,
  ⟨"user_secrets", fun d => d.userSecrets.isSome, fun d bs =>
    Json.mapResult (fun s => { d with userSecrets := some s }) (CacheSettings.reader bs)⟩,
  ⟨"logging", fun d => d.logging.isSome, fun d bs =>
    Json.mapResult (fun s => { d with logging := some s }) (LogSettings.reader bs)⟩]

/-- The settings of a draft that is complete. -/
def ofDraft? (d : Draft) : Option Settings := do
  return ⟨← d.cache, ← d.userSecrets, ← d.logging⟩

/-- Reads all settings. -/
def reader : Json.Reader Settings := Json.record fields ⟨none, none, none⟩ ofDraft?

/-- The settings that a JSON text holds. -/
def read (bs : Bytes) : Except SecretError Settings :=
  match Json.whole reader bs with
  | .ok s => .ok s
  | .error fault => .error (.decryption (Document.jsonCause bs fault))

end Settings

end SecretResolver
