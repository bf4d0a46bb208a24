import Folio.Cache.Named
import Folio.Text.Decimal
import Folio.Text.Quoted

/-!
What a cache tells about itself: its statistics and short descriptions.
-/
namespace Folio.Cache

/-- The counts of a cache at one time. -/
structure Stats where
  name : String
  capacity : Nat
  size : Nat
  hits : Nat
  misses : Nat
  evictions : Nat
  thrashing : Nat
  /-- The share of lookups that found an object. -/
  hitRatio : Float

/-- The share of hits is given in percent with one decimal. -/
def Stats.message (s : Stats) : String :=
  s.name ++ ": " ++ s!"{s.size}/{s.capacity} entries, {s.hits} hits, {s.misses} misses ("
    ++ Text.fixed 1 (s.hitRatio * 100.0)
    ++ s!"%), {s.evictions} evictions, {s.thrashing} thrashing"

def stats {σ α : Type} (c : Cache σ α) : Stats where
  name := c.name
  capacity := c.capacity
  size := c.size
  hits := c.accounting.hits
  misses := c.accounting.misses
  evictions := c.accounting.evictions
  thrashing := c.accounting.thrashing
  hitRatio := c.accounting.hitRatio

/-- A cache by itself. -/
def describe {σ α : Type} (c : Cache σ α) : String :=
  "LruCache \x7b name: " ++ Text.quoted c.name ++ ", capacity: " ++ toString c.capacity
    ++ ", len: " ++ toString c.size ++ ", operational: " ++ toString c.operational
    ++ ", has_manager: " ++ toString c.attached
    ++ ", has_flush_hook: " ++ toString c.flushHook.isSome ++ " \x7d"

/-- A cache that is shared by several users. -/
def describeShared {σ α : Type} (c : Cache σ α) : String :=
  "CacheContainer \x7b name: " ++ Text.quoted c.name ++ ", len: " ++ toString c.size
    ++ ", capacity: " ++ toString c.capacity ++ " \x7d"

/-- A shared cache while one of its users has it for itself. -/
def describeTaken : String := "CacheContainer \x7b locked: true \x7d"

end Folio.Cache
