/-
**Limits of a cache.**

How many entries a cache holds and how long it holds them: each entry is gone some time after it
was written, and some time after it was last looked up.  Times are in milliseconds.

Main definitions:

* `CacheLimits`, with `standard` and `userSecrets`;
* `CacheLimits.capacity` — a cache holds at least one entry;
* `CacheLimits.description`.
-/

set_option relaxedAutoImplicit false
set_option autoImplicit false

namespace SecretResolver

/-- Limits of a cache. -/
structure CacheLimits where
  /-- The greatest number of entries, as it is configured. -/
  maximumSize : Nat
  /-- How long an entry lives after it was written. -/
  afterWrite : Nat
  /-- How long an entry lives after it was last looked up. -/
  afterAccess : Nat
  deriving Repr, DecidableEq

/-- The milliseconds of some minutes. -/
def minutes (n : Nat) : Nat := n * 60 * 1000

namespace CacheLimits

/-- A thousand entries, three quarters of an hour, and a quarter of an hour. -/
def standard : CacheLimits := ⟨1000, minutes 45, minutes 15⟩

/-- Fifty thousand entries, an hour, and a third of an hour. -/
def userSecrets : CacheLimits := ⟨50000, minutes 60, minutes 20⟩

/-- The number of entries that there is room for. -/
def capacity (l : CacheLimits) : Nat := max 1 l.maximumSize

theorem capacity_pos (l : CacheLimits) : 0 < l.capacity := by
  unfold capacity
  omega

/-- Digits after a point, without the zeros at their end. -/
def fractionText (ms : Nat) : String :=
  if ms = 0 then ""
  else if ms % 100 = 0 then s!".{ms / 100}"
  else if ms % 10 = 0 then s!".{ms / 100}{ms / 10 % 10}"
  else s!".{ms / 100}{ms / 10 % 10}{ms % 10}"

/-- A length of time in the largest unit that it fills. -/
def durationText (ms : Nat) : String :=
  if ms = 0 then "0ns"
  else if ms < 1000 then s!"{ms}ms"
  else toString (ms / 1000) ++ fractionText (ms % 1000) ++ "s"

/-- The limits in words. -/
def description (l : CacheLimits) : String :=
  s!"CacheSettings \x7b maximum_size: {l.maximumSize}, " ++
    s!"expire_after_write: {durationText l.afterWrite}, " ++
    s!"expire_after_access: {durationText l.afterAccess} \x7d"

end CacheLimits

end SecretResolver
