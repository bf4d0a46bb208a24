import Folio.Cache.Error
import Folio.Table

/-!
The number of objects that all caches together may hold. Each cache is entered under its name with
its share; a cache that wants to be larger states its size and asks for the difference. What it is
given comes out of what remains, and out of what its share exceeds the stated size by.
-/
namespace Folio.Cache

structure Budget where
  total : Nat := 16384
  /-- The share of each cache. -/
  shares : Table String Nat := ∅

namespace Budget

/-- What has been given out. -/
def used (b : Budget) : Nat := b.shares.values.foldr (· + ·) 0

/-- What can still be given out. -/
def remaining (b : Budget) : Nat := b.total - b.used

/-- The share of a cache, if it is entered. -/
def share? (b : Budget) (name : String) : Option Nat := b.shares.get? name

def setShare (b : Budget) (name : String) (share : Nat) : Budget :=
  { b with shares := b.shares.insert name share }

/-- What a cache of size `current` may grow by: what remains, and what its share exceeds its size
by. -/
def available (b : Budget) (name : String) (current : Nat) : Nat :=
  b.remaining + ((b.share? name).getD 0 - current)

/-- Enters a cache with a share, in place of the share it had. -/
def register (b : Budget) (name : String) (share : Nat) : Except Error Budget :=
  let available := b.available name 0
  if available < share then .error (.budgetExceeded share available)
  else .ok (b.setShare name share)

/-- Strikes a cache out. -/
def unregister (b : Budget) (name : String) : Budget :=
  { b with shares := b.shares.erase name }

/-- Lets a cache grow as far towards `desired` as the budget allows, and tells how large it may be;
`none` if it may not grow at all. -/
def grow (b : Budget) (name : String) (current desired : Nat) : Option (Nat × Budget) :=
  let available := b.available name current
  if desired ≤ current ∨ available = 0 then none
  else
    let granted := min desired (current + available)
    some (granted, b.setShare name granted)

/-- Lets a cache grow to `desired` or not at all. -/
def reserve (b : Budget) (name : String) (current desired : Nat) : Except Error Budget :=
  let available := b.available name current
  if desired ≤ current then .ok b
  else if available < desired - current then
    .error (.budgetExceeded (desired - current) available)
  else .ok (b.setShare name desired)

/-- Lowers the share of a cache that is entered with more. -/
def release (b : Budget) (name : String) (share : Nat) : Budget :=
  { b with shares := b.shares.modify name (min share) }

end Budget
end Folio.Cache
