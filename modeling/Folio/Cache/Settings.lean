/-!
The settings of one cache: how large it starts, how far and when it grows, and how often an eviction
pass is repeated.
-/
namespace Folio.Cache

structure Settings where
  /-- The number of objects the cache starts out to hold. -/
  capacity : Nat := 64
  /-- Growth by itself stops here. -/
  maxCapacity : Nat := 4096
  /-- By what factor the cache grows. -/
  growthFactor : Float := 1.5
  /-- The share of recent evictions that have to come straight back before the cache grows. -/
  growthThreshold : Float := 0.25
  /-- How many times an eviction pass goes through the cache; at least once. -/
  evictionAttempts : Nat := 3

namespace Settings

/-- The default settings at a given capacity. -/
def withCapacity (capacity : Nat) : Settings :=
  { capacity, maxCapacity := max 4096 capacity }

/-- The capacity to grow to: larger by the growth factor and by one object at least, and within the
maximum. -/
def grown (s : Settings) (capacity : Nat) : Nat :=
  let scaled := (Float.ofNat capacity * s.growthFactor).ceil.toUInt64.toNat
  min (max scaled (capacity + 1)) s.maxCapacity

end Settings
end Folio.Cache
