import Folio.Cache.Settings
import Folio.Settings.Error
import Folio.Text.Decimal
import Folio.Text.Duration

/-!
The settings of a database and the checks that they have to pass.
-/
namespace Folio

structure Settings where
  cache : Cache.Settings := {}
  /-- The number of objects that all caches together may hold. -/
  budget : Nat := 16384
  /-- How many milliseconds an acquire of a lock may wait, `none` for as long as it takes. -/
  lockMillis : Option Nat := none
  logLevel : String := "info"

namespace Settings

def lockTimeout (s : Settings) : Option Duration := s.lockMillis.map Duration.ofMillis

/-- The first reason for which settings cannot be honoured. -/
def fault? (s : Settings) : Option String :=
  let c := s.cache
  if c.capacity = 0 then some "collection_cache.capacity must be at least 1"
  else if c.maxCapacity < c.capacity then
    some s!"collection_cache.capacity {c.capacity} exceeds max_capacity {c.maxCapacity}"
  else if c.growthFactor ≤ 1.0 then
    some ("collection_cache.growth_factor must be greater than 1.0, got "
      ++ Text.shortest c.growthFactor)
  else if c.evictionAttempts = 0 then
    some "collection_cache.eviction_attempts must be at least 1"
  else if s.budget < c.capacity then
    some s!"collection_cache.capacity {c.capacity} exceeds budget.max_total_capacity {s.budget}"
  else none

def validate (s : Settings) : Except Error Unit :=
  match s.fault? with
  | some reason => .error (.invalid reason)
  | none => .ok ()

end Settings
end Folio
