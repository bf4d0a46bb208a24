import Folio.Cache.Accounting
import Folio.Cache.Instance
import Folio.Cache.Recency
import Folio.Cache.Settings

/-!
A bounded cache of shared objects with least-recently-used replacement. An object that is pinned,
locked by someone, unwilling to go or changed and not written back is passed over; if none can go
when room is needed, the cache asks the budget for more. A changed object leaves by eviction only
after it was written back without being changed again meanwhile.
-/
namespace Folio

open Cache (Accounting Cacheable FlushHook Handle Instance Recency)

/-- A cache. Objects are cached under their identities. -/
structure Cache (σ α : Type) where
  name : String
  /-- The number of objects the cache may hold. -/
  capacity : Nat
  settings : Cache.Settings
  entries : Table ObjectId Handle := ∅
  /-- The identities of the entries by their last use. -/
  recency : Recency := {}
  accounting : Accounting
  /-- A cache out of operation still finds its objects and takes no new ones. -/
  operational : Bool := true
  /-- The cache's capacity is entered in the budget. -/
  attached : Bool := false
  flushHook : Option (FlushHook σ α) := none

namespace Cache

variable {σ α : Type}

def new (name : String) (settings : Settings) : Cache σ α where
  name
  capacity := settings.capacity
  settings
  accounting := .new settings.capacity

/-- The number of cached objects. -/
def size (c : Cache σ α) : Nat := c.entries.size

def contains (c : Cache σ α) (id : ObjectId) : Bool := c.entries.contains id

/-- The cached identities, least recently used first. -/
def ids (c : Cache σ α) : List ObjectId := c.recency.toList

/-- The cached instances, least recently used first. -/
def handles (c : Cache σ α) : List Handle := c.ids.filterMap c.entries.get?

/-- The cached instances that are dirty, least recently used first. -/
def dirtyHandles (c : Cache σ α) (w : Workspace σ α) : List Handle :=
  c.handles.filter fun h => (w.pool.get? h).any (·.dirty)

/-- The approximate number of bytes of all cached objects. -/
def totalSize [Cacheable α] (c : Cache σ α) (w : Workspace σ α) : Nat :=
  (c.handles.filterMap w.pool.get?).foldr (fun i n => Cacheable.size i.content + n) 0

def setOperational (c : Cache σ α) (operational : Bool) : Cache σ α := { c with operational }

/-- From now on, dirty objects are written back by a hook. -/
def setFlushHook (c : Cache σ α) (hook : FlushHook σ α) : Cache σ α :=
  { c with flushHook := some hook }

/-- What an operation that may move objects leaves behind. -/
structure Result (σ α β : Type) where
  value : β
  /-- The instances that left the cache by the way. -/
  left : List Handle := []
  cache : Cache σ α
  workspace : Workspace σ α

/-! ### The budget -/

/-- Enters the cache's capacity in the budget. -/
def attach (c : Cache σ α) (w : Workspace σ α) : Except Error (Cache σ α × Workspace σ α) := do
  let budget ← w.budget.register c.name c.capacity
  return ({ c with attached := true }, w.setBudget budget)

/-- Strikes the cache out of the budget when it is given up. -/
def detach (c : Cache σ α) (w : Workspace σ α) : Workspace σ α :=
  if c.attached then w.setBudget (w.budget.unregister c.name) else w

/-- Sets the capacity and starts a new observation of evictions. -/
def setCapacity (c : Cache σ α) (capacity : Nat) : Cache σ α :=
  { c with capacity, accounting := c.accounting.resetWindow capacity }

/-- Grows within the maximum capacity and the budget, and tells whether anything was gained. -/
def grow (c : Cache σ α) (w : Workspace σ α) : Bool × Cache σ α × Workspace σ α :=
  let desired := c.settings.grown c.capacity
  if desired ≤ c.capacity then (false, c, w)
  else if c.attached then
    match w.budget.grow c.name c.capacity desired with
    | some (granted, budget) => (true, c.setCapacity granted, w.setBudget budget)
    | none => (false, c, w)
  else (true, c.setCapacity desired, w)

/-! ### Eviction -/

/-- Writes a dirty instance back before it leaves. The flag is cleared before the hook runs, so a
change made while it is written marks the instance again and keeps it in the cache; so does a hook
that fails or is missing. -/
def flushBeforeUnload (hook : Option (FlushHook σ α)) (i : Instance α) (outside : σ) :
    Bool × Instance α × σ :=
  if i.dirty then
    match hook with
    | none => (false, i, outside)
    | some flush =>
      match flush (i.setDirty false) outside with
      | (.ok (), i, outside) => (!i.dirty, i, outside)
      | (.error _, i, outside) => (false, i.setDirty true, outside)
  else (true, i, outside)

/-- Whether an instance may leave now. It must be without pins and free for reading; it is asked,
and written back if need be, under a read lock that is given back in any case. -/
def mayUnload [Cacheable α] (hook : Option (FlushHook σ α)) (i : Instance α) (outside : σ) :
    Bool × Instance α × σ :=
  if i.refCount ≠ 0 then (false, i, outside)
  else
    match i.lock.tryAcquire .read with
    | none => (false, i, outside)
    | some held =>
      let (allowed, i) := Cacheable.allowUnload (i.setLock held)
      let (unload, i, outside) :=
        if allowed && i.refCount == 0 then flushBeforeUnload hook i outside
        else (false, i, outside)
      (unload, i.setLock (i.lock.releaseIfHeld .read), outside)

/-- Asks one cached instance whether it may leave. -/
def tryUnload [Cacheable α] (c : Cache σ α) (h : Handle) (w : Workspace σ α) :
    Bool × Workspace σ α :=
  match w.pool.get? h with
  | none => (false, w)
  | some i =>
    let (unload, i, outside) := mayUnload c.flushHook i w.outside
    (unload, { w with pool := w.pool.set h i, outside })

/-- Looks through identities for the first instance that may leave; `exclude` stays out of it. -/
def scan [Cacheable α] (c : Cache σ α) (exclude : Option ObjectId) :
    List ObjectId → Workspace σ α → Option (ObjectId × Handle) × Workspace σ α
  | [], w => (none, w)
  | id :: ids, w =>
    if exclude = some id then scan c exclude ids w
    else
      match c.entries.get? id with
      | none => scan c exclude ids w
      | some h =>
        match c.tryUnload h w with
        | (true, w) => (some (id, h), w)
        | (false, w) => scan c exclude ids w

/-- Looks through the cache from the least recently used end, several times if need be. -/
def search [Cacheable α] (c : Cache σ α) (exclude : Option ObjectId) :
    (attempts : Nat) → Workspace σ α → Option (ObjectId × Handle) × Workspace σ α
  | 0, w => (none, w)
  | attempts + 1, w =>
    match c.scan exclude c.ids w with
    | (some found, w) => (some found, w)
    | (none, w) => search c exclude attempts w

/-- Takes an entry out. -/
def drop (c : Cache σ α) (id : ObjectId) : Cache σ α :=
  { c with entries := c.entries.erase id, recency := c.recency.unlink id }

/-- One eviction pass: at most one object leaves. -/
def evictionPass [Cacheable α] (c : Cache σ α) (exclude : Option ObjectId) (w : Workspace σ α) :
    Result σ α (Option ObjectId) :=
  match c.search exclude (max c.settings.evictionAttempts 1) w with
  | (none, workspace) => { value := none, cache := c, workspace }
  | (some (id, h), workspace) =>
    { value := some id
      left := [h]
      cache := { c.drop id with accounting := c.accounting.recordEviction id }
      workspace }

/-- One eviction pass on behalf of the owner; tells the identity that left. -/
def evict [Cacheable α] (c : Cache σ α) (w : Workspace σ α) : Result σ α (Option ObjectId) :=
  c.evictionPass none w

/-- Up to `count` eviction passes, until one of them makes no progress; tells how many objects
left. -/
def evictUpTo [Cacheable α] (c : Cache σ α) (w : Workspace σ α) : (count : Nat) → Result σ α Nat
  | 0 => { value := 0, cache := c, workspace := w }
  | count + 1 =>
    let pass := c.evictionPass none w
    match pass.value with
    | none => { value := 0, cache := pass.cache, workspace := pass.workspace }
    | some _ =>
      let others := evictUpTo pass.cache pass.workspace count
      { others with value := others.value + 1, left := pass.left ++ others.left }

/-! ### Operations -/

/-- Looks an object up, which makes it the most recently used one. -/
def get (c : Cache σ α) (id : ObjectId) : Option Handle × Cache σ α :=
  match c.entries.get? id with
  | some h =>
    (some h, { c with recency := c.recency.touch id, accounting := c.accounting.recordHit })
  | none => (none, { c with accounting := c.accounting.recordMiss })

/-- Takes an object out for its owner. It is not written back. -/
def remove (c : Cache σ α) (id : ObjectId) : Option Handle × Cache σ α :=
  match c.entries.get? id with
  | some h => (some h, c.drop id)
  | none => (none, c)

/-- What became of an object that was added. -/
inductive Added where
  /-- It is cached under a new identity. -/
  | cached
  /-- It has taken the place of another instance, or was there already. -/
  | replaced
  /-- The cache is out of operation. -/
  | notCached
deriving DecidableEq, Repr

/-- Writes back an instance that was replaced. It has left the cache in any case. -/
def flushReplaced (hook : Option (FlushHook σ α)) (i : Instance α) (outside : σ) :
    Instance α × σ :=
  match i.dirty, hook with
  | true, some flush =>
    match flush (i.setDirty false) outside with
    | (.ok (), i, outside) => (i, outside)
    | (.error _, i, outside) => (i.setDirty true, outside)
  | _, _ => (i, outside)

/-- Puts an instance in the place of the one cached under its identity. -/
def replace (c : Cache σ α) (id : ObjectId) (previous h : Handle) (w : Workspace σ α) :
    Result σ α (Except Error Added) :=
  let workspace :=
    match w.pool.get? previous with
    | some i =>
      if previous = h then w
      else
        let (i, outside) := flushReplaced c.flushHook i w.outside
        { w with pool := w.pool.set previous i, outside }
    | none => w
  { value := .ok .replaced
    left := [previous]
    cache := { c with entries := c.entries.insert id h, recency := c.recency.touch id }
    workspace }

/-- Makes room after an object came in: by evicting another one, and growing if this happens too
often, else by growing. If neither is possible the new object goes out again. -/
def makeRoom [Cacheable α] (c : Cache σ α) (id : ObjectId) (h : Handle) (w : Workspace σ α) :
    Result σ α (Except Error Added) :=
  let pass := c.evictionPass (some id) w
  match pass.value with
  | some _ =>
    if pass.cache.accounting.shouldGrow c.settings.growthThreshold then
      let (_, cache, workspace) := pass.cache.grow pass.workspace
      { value := .ok .cached, left := pass.left, cache, workspace }
    else { pass with value := .ok .cached }
  | none =>
    match pass.cache.grow pass.workspace with
    | (true, cache, workspace) => { value := .ok .cached, cache, workspace }
    | (false, cache, workspace) =>
      let cache := cache.drop id
      { value := .error (.capacityExhausted cache.name cache.capacity cache.size)
        left := [h]
        cache
        workspace }

/-- Caches an instance with a given reference count, as the most recently used one. -/
def add [Cacheable α] (c : Cache σ α) (h : Handle) (refCount : UInt32) (w : Workspace σ α) :
    Result σ α (Except Error Added) :=
  match c.operational, w.identity? h with
  | true, some id =>
    let w := w.modify h ({ · with refCount })
    match c.entries.get? id with
    | some previous => c.replace id previous h w
    | none =>
      let c := { c with
        entries := c.entries.insert id h
        recency := c.recency.pushBack id
        accounting := c.accounting.recordInsert id }
      if c.size ≤ c.capacity then { value := .ok .cached, cache := c, workspace := w }
      else c.makeRoom id h w
  | _, _ => { value := .ok .notCached, cache := c, workspace := w }

/-- What came of a change of capacity. -/
structure ResizeReport where
  requested : Nat
  /-- The capacity from now on; more than requested if too few objects could leave. -/
  capacity : Nat
  size : Nat
  evicted : Nat
deriving DecidableEq, Repr

namespace ResizeReport

def reachedTarget (r : ResizeReport) : Bool := r.capacity == r.requested

/-- By how much the capacity exceeds the requested one. -/
def shortfall (r : ResizeReport) : Nat := r.capacity - r.requested

end ResizeReport

/-- Raises the capacity, if the budget allows. -/
def enlarge (c : Cache σ α) (capacity : Nat) (w : Workspace σ α) :
    Except Error (Cache σ α × Workspace σ α) := do
  let budget ←
    if c.attached then w.budget.reserve c.name c.capacity capacity else pure w.budget
  let settings := { c.settings with maxCapacity := max c.settings.maxCapacity capacity }
  return (setCapacity { c with settings } capacity, w.setBudget budget)

/-- Lowers the capacity as far as objects can leave. -/
def shrink [Cacheable α] (c : Cache σ α) (capacity : Nat) (w : Workspace σ α) :
    Result σ α ResizeReport :=
  let passes := c.evictUpTo w (c.size - capacity)
  let size := passes.cache.size
  let reached := max capacity size
  let w := passes.workspace
  { value := { requested := capacity, capacity := reached, size, evicted := passes.value }
    left := passes.left
    cache := passes.cache.setCapacity reached
    workspace := if c.attached then w.setBudget (w.budget.release c.name reached) else w }

/-- Changes the capacity. -/
def resize [Cacheable α] (c : Cache σ α) (capacity : Nat) (w : Workspace σ α) :
    Result σ α (Except Error ResizeReport) :=
  if c.capacity ≤ capacity then
    match c.enlarge capacity w with
    | .ok (cache, workspace) =>
      { value := .ok { requested := capacity, capacity, size := c.size, evicted := 0 }
        cache
        workspace }
    | .error e => { value := .error e, cache := c, workspace := w }
  else
    let shrunk := c.shrink capacity w
    { shrunk with value := .ok shrunk.value }

end Cache
end Folio
