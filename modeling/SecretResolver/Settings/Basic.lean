/-
**Settings.**

The limits of the two caches and what is logged.  Limits are given in entries and seconds, and none
of them may be zero; nor may the level of the log be empty.

Main definitions:

* `CacheSettings`, `LogSettings`, `Settings`, each with its defaults;
* `CacheSettings.limits` — the limits of a cache with some settings;
* `Settings.violations`, `Settings.check` — the rules.

Main results:

* `Settings.check_eq_ok_iff` — settings pass when all limits are at least one and the level is not
  empty.
-/

import SecretResolver.Cache.Limits
import SecretResolver.Violations

set_option relaxedAutoImplicit false
set_option autoImplicit false

namespace SecretResolver

/-- Settings of a cache. -/
structure CacheSettings where
  maximumSize : Nat
  /-- How many seconds an entry lives after it was written. -/
  afterWriteSeconds : Nat
  /-- How many seconds an entry lives after it was last looked up. -/
  afterAccessSeconds : Nat
  deriving Repr, DecidableEq

/-- Settings of the log. -/
structure LogSettings where
  /-- The least level that is logged, or a whole filter. -/
  level : String
  json : Bool
  deriving Repr, DecidableEq

/-- All settings. -/
structure Settings where
  cache : CacheSettings
  userSecrets : CacheSettings
  logging : LogSettings
  deriving Repr, DecidableEq

/-! ### Defaults -/

/-- The settings of a cache with some limits. -/
def CacheSettings.ofLimits (l : CacheLimits) : CacheSettings :=
  ⟨l.maximumSize, l.afterWrite / 1000, l.afterAccess / 1000⟩

/-- The limits of a cache with some settings. -/
def CacheSettings.limits (s : CacheSettings) : CacheLimits :=
  ⟨s.maximumSize, 1000 * s.afterWriteSeconds, 1000 * s.afterAccessSeconds⟩

/-- The settings where nothing else is said. -/
def Settings.standard : Settings :=
  ⟨.ofLimits .standard, .ofLimits .userSecrets, ⟨"info", false⟩⟩

/-! ### Rules -/

/-- The rule that a field holds. -/
def require (holds : Bool) (name message : String) : Violations :=
  if holds then [] else [(name, .messages [some message])]

/-- The rules of a section. -/
def requireSection (name : String) (vs : Violations) : Violations :=
  if vs.isEmpty then [] else [(name, .record vs)]

theorem require_eq_nil_iff {holds : Bool} {name message : String} :
    require holds name message = [] ↔ holds = true := by
  cases holds <;> simp [require]

theorem requireSection_eq_nil_iff {name : String} {vs : Violations} :
    requireSection name vs = [] ↔ vs = [] := by
  cases vs <;> simp [requireSection]

/-- What is wrong with the settings of a cache. -/
def CacheSettings.violations (s : CacheSettings) : Violations :=
  require (1 ≤ s.maximumSize) "maximum_size" "Maximum size must be at least 1" ++
    require (1 ≤ s.afterWriteSeconds) "expire_after_write_seconds"
      "Expire after write must be at least 1 second" ++
    require (1 ≤ s.afterAccessSeconds) "expire_after_access_seconds"
      "Expire after access must be at least 1 second"

/-- What is wrong with the settings of the log. -/
def LogSettings.violations (s : LogSettings) : Violations :=
  require (s.level ≠ "") "level" "Log level cannot be empty"

namespace Settings

/-- What is wrong with some settings. -/
def violations (s : Settings) : Violations :=
  requireSection "cache" s.cache.violations ++
    requireSection "user_secrets" s.userSecrets.violations ++
    requireSection "logging" s.logging.violations

/-- Whether all limits are at least one and the level is not empty. -/
def IsValid (s : Settings) : Prop :=
  (1 ≤ s.cache.maximumSize ∧ 1 ≤ s.cache.afterWriteSeconds ∧ 1 ≤ s.cache.afterAccessSeconds) ∧
    (1 ≤ s.userSecrets.maximumSize ∧ 1 ≤ s.userSecrets.afterWriteSeconds ∧
      1 ≤ s.userSecrets.afterAccessSeconds) ∧
    s.logging.level ≠ ""

theorem violations_eq_nil_iff {s : Settings} : s.violations = [] ↔ s.IsValid := by
  simp [violations, requireSection_eq_nil_iff, CacheSettings.violations,
    LogSettings.violations, require_eq_nil_iff, IsValid, and_assoc]

/-- Lets settings pass that break no rule. -/
def check (s : Settings) : Except SecretError Settings :=
  if s.violations.isEmpty then .ok s else .error s.violations.toError

/-- Settings pass exactly when they are valid. -/
theorem check_eq_ok_iff {s t : Settings} : s.check = .ok t ↔ s.IsValid ∧ s = t := by
  rw [← violations_eq_nil_iff]
  unfold check
  cases h : s.violations <;> simp

end Settings

end SecretResolver
