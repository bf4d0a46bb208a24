import Folio.Record.Basic

/-!
Counts of what happens in a cache. An object that is added again shortly after it was evicted
counts as thrashing: the cache is too small for what it is used for, and if that happens often
enough it should grow.
-/
namespace Folio.Cache

/-- The identities evicted most recently, at most `limit` of them. -/
structure EvictionWindow where
  /-- Oldest first. -/
  queue : List ObjectId := []
  members : List ObjectId := []
  limit : Nat
deriving DecidableEq, Repr

namespace EvictionWindow

/-- Drops the oldest identities that exceed the limit. -/
def trim (limit : Nat) : (queue members : List ObjectId) → EvictionWindow
  | [], members => { queue := [], members, limit }
  | oldest :: queue, members =>
    if limit < (oldest :: queue).length then trim limit queue (members.erase oldest)
    else { queue := oldest :: queue, members, limit }

/-- Notes an eviction. An identity already in the window keeps its place. -/
def push (w : EvictionWindow) (id : ObjectId) : EvictionWindow :=
  if w.limit = 0 ∨ id ∈ w.members then w
  else trim w.limit (w.queue ++ [id]) (id :: w.members)

/-- Takes an identity out of the window and tells whether it was there. -/
def take (w : EvictionWindow) (id : ObjectId) : Bool × EvictionWindow :=
  if id ∈ w.members then
    (true, { w with queue := w.queue.filter (· ≠ id), members := w.members.erase id })
  else (false, w)

end EvictionWindow

/-- The counts of one cache. -/
structure Accounting where
  hits : Nat := 0
  misses : Nat := 0
  evictions : Nat := 0
  thrashing : Nat := 0
  /-- Evictions since the window was last cleared. -/
  windowEvictions : Nat := 0
  /-- Thrashing since the window was last cleared. -/
  windowThrashing : Nat := 0
  window : EvictionWindow
deriving DecidableEq, Repr

namespace Accounting

/-- With fewer recent evictions there is too little evidence to grow. -/
def minEvictions : Nat := 8

def new (limit : Nat) : Accounting := { window := { limit } }

def recordHit (a : Accounting) : Accounting := { a with hits := a.hits + 1 }

def recordMiss (a : Accounting) : Accounting := { a with misses := a.misses + 1 }

def recordEviction (a : Accounting) (id : ObjectId) : Accounting :=
  { a with
    evictions := a.evictions + 1
    windowEvictions := a.windowEvictions + 1
    window := a.window.push id }

/-- Notes that an identity is newly cached. -/
def recordInsert (a : Accounting) (id : ObjectId) : Accounting :=
  match a.window.take id with
  | (true, window) =>
    { a with
      thrashing := a.thrashing + 1
      windowThrashing := a.windowThrashing + 1
      window }
  | (false, _) => a

/-- The share of lookups that found an object; zero before the first one. -/
def hitRatio (a : Accounting) : Float :=
  let hits := Float.ofNat a.hits
  let total := hits + Float.ofNat a.misses
  if total == 0.0 then 0.0 else hits / total

/-- Enough of the recent evictions came straight back. -/
def shouldGrow (a : Accounting) (threshold : Float) : Bool :=
  minEvictions ≤ a.windowEvictions &&
    Float.ofNat a.windowThrashing / Float.ofNat a.windowEvictions > threshold

/-- Clears the window and gives it a new size. -/
def resetWindow (a : Accounting) (limit : Nat) : Accounting :=
  { a with windowEvictions := 0, windowThrashing := 0, window := { limit } }

end Accounting
end Folio.Cache
