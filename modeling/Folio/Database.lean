import Folio.Cache.Named
import Folio.Settings.Basic
import Folio.Store
import Folio.Transaction.Registry

/-!
A database: a cache of collections over a store, a budget for the cache and a registry of
transactions. A collection that is created or opened is pinned for the caller until it is released,
and a pinned collection is not evicted, so whoever opens it meanwhile is given the same instance.
-/
namespace Folio

open Cache (Added Cacheable Handle Instance Pool Workspace)
open Transaction (After)

structure Database where
  settings : Settings
  cache : NamedCache Store Record
  /-- The collections in memory, the budget, and the store. -/
  workspace : Workspace Store Record
  registry : Registry := {}

namespace Database

/-- What an operation on a database can refuse, by the part that refuses it. -/
inductive Error where
  | settings (e : Settings.Error)
  | cache (e : Cache.Error)
  | transaction (e : Transaction.Error)
  | codec (e : Codec.Error)
deriving DecidableEq, Repr

def Error.message : Error → String
  | settings e => e.message
  | cache e => e.message
  | transaction e => e.message
  | codec e => e.message

/-- The name of the cache of collections. -/
def cacheName : String := "collections"

/-- A database over a store. The instances in memory may be shared with an earlier database. -/
def new (settings : Settings) (store : Store) (pool : Pool Record := {}) :
    Except Error Database := do
  (settings.validate).mapError .settings
  let cache := (NamedCache.new cacheName settings.cache).setFlushHook Store.flushHook
  let workspace := { pool, budget := { total := settings.budget }, outside := store }
  let (cache, workspace) ← (cache.attach workspace).mapError .cache
  return { settings, cache, workspace }

def store (d : Database) : Store := d.workspace.outside

def setStore (d : Database) (store : Store) : Database :=
  { d with workspace := { d.workspace with outside := store } }

def collection? (d : Database) (h : Handle) : Option Collection := d.workspace.pool.get? h

/-- Changes a collection in memory. -/
def modify (d : Database) (h : Handle) (f : Collection → Collection) : Database :=
  { d with workspace := d.workspace.modify h f }

/-- The locks of a database are those of its collections in memory. -/
instance : LockSpace Database where
  lock? d h := (d.collection? h).map (·.lock)
  setLock d h lock := d.modify h (·.setLock lock)

/-! ### Collections -/

/-- Brings a collection into memory and caches it with one pin. A cache out of operation does not
take it; the caller has the only pin then as well. -/
def bringIn (d : Database) (c : Collection) : Except Cache.Error Handle × Database :=
  let (h, pool) := d.workspace.pool.add c
  let r := d.cache.add h 1 (d.workspace.setPool pool)
  let d := { d with cache := r.cache, workspace := r.workspace }
  match r.value with
  | .error e => (.error e, d)
  | .ok .notCached => (.ok h, d.modify h Instance.pin)
  | .ok _ => (.ok h, d)

/-- Creates a collection. It is dirty, since it is not stored yet, and pinned. -/
def create (d : Database) (id : ObjectId) (name : String) : Except Error Handle × Database :=
  let fresh := Collection.ofRecord { id, name } d.settings.lockTimeout
  let (result, d) := d.bringIn (fresh.setDirty true)
  (result.mapError .cache, d)

/-- Looks a collection up in the cache and pins it. -/
def checkout (d : Database) (id : ObjectId) : Option Handle × Database :=
  let r := d.cache.checkout id d.workspace
  (r.value, { d with cache := r.cache, workspace := r.workspace })

/-- Loads a collection that is not cached; `none` if it is not stored either. -/
def loadStored (d : Database) (id : ObjectId) : Except Error (Option Handle) × Database :=
  match d.store.load id d.settings.lockTimeout with
  | .error e => (.error (.codec e), d)
  | .ok none => (.ok none, d)
  | .ok (some c) =>
    let (result, d) := d.bringIn c
    ((result.map some).mapError .cache, d)

/-- Opens a collection by its identity: from the cache, else from the store. The cache is asked a
second time before the store, because another caller may have loaded the collection meanwhile. -/
def openById (d : Database) (id : ObjectId) : Except Error (Option Handle) × Database :=
  match d.checkout id with
  | (some h, d) => (.ok (some h), d)
  | (none, d) =>
    match d.checkout id with
    | (some h, d) => (.ok (some h), d)
    | (none, d) => d.loadStored id

/-- Opens a collection by its name. -/
def openByName (d : Database) (name : String) : Except Error (Option Handle) × Database :=
  let r := d.cache.checkoutByName name d.workspace
  let d := { d with cache := r.cache, workspace := r.workspace }
  match r.value, d.store.findByName? name with
  | some h, _ => (.ok (some h), d)
  | none, some id => d.openById id
  | none, none => (.ok none, d)

/-- Takes the caller's pin back. -/
def release (d : Database) (h : Handle) : Database := d.modify h Instance.unpin

/-! ### Transactions -/

section
variable {τ : Type}

def begin (d : Database) : Except Transaction.Error (Transaction τ × Database) :=
  (d.registry.start).map fun (t, registry) => (t, { d with registry })

/-- Acquires the lock of a collection for a transaction, while nobody else touches the lock; `none`
if it would wait without end. -/
def lockCollection (d : Database) (t : Transaction τ) (h : Handle) (mode : Lock.Mode) :
    Option (Except Error (Transaction τ × Database)) :=
  (t.acquire ⟨h, mode⟩ d).map (·.mapError .transaction)

/-- Brings the registry up to date after an operation on a transaction. -/
def follow (before : Transaction τ) (after : After Database τ) : After Database τ :=
  let d := after.locks
  { after with locks := { d with registry := d.registry.follow before after.transaction } }

def commit (d : Database) (t : Transaction τ) : Except Transaction.Error (After Database τ) :=
  (t.commit d).map (follow t)

def abort (d : Database) (t : Transaction τ) : Except Transaction.Error (After Database τ) :=
  (t.abort d).map (follow t)

def close (d : Database) (t : Transaction τ) : Except Transaction.Error (After Database τ) :=
  (t.close d).map (follow t)

/-- Gives a transaction up. -/
def drop (d : Database) (t : Transaction τ) : After Database τ := follow t (t.drop d)

end

/-! ### Writing back -/

/-- The dirty collections in the cache. -/
def dirtyHandles (d : Database) : List Handle := d.cache.base.dirtyHandles d.workspace

/-- Writes one collection to the store under a read lock; tells whether it was written. A collection
whose lock cannot be had at once is passed over. The flag is cleared before the collection is
written, so that a change made meanwhile marks it again. -/
def flushOne (d : Database) (h : Handle) : Bool × Database :=
  match d.collection? h with
  | none => (false, d)
  | some c =>
    match c.lock.tryAcquire .read with
    | none => (false, d)
    | some held =>
      let c := (c.setLock held).setDirty false
      let (written, c, store) := match d.store.write c with
        | .ok store => (true, c, store)
        | .error _ => (false, c.setDirty true, d.store)
      (written, (d.setStore store).modify h fun _ => c.setLock (c.lock.releaseIfHeld .read))

/-- Writes each of the given collections; tells how many were written and how many not. -/
def flushEach (d : Database) : List Handle → (Nat × Nat) × Database
  | [] => ((0, 0), d)
  | h :: hs =>
    let (written, d) := d.flushOne h
    let ((flushed, skipped), d) := flushEach d hs
    (if written then (flushed + 1, skipped) else (flushed, skipped + 1), d)

/-- Writes every dirty collection in the cache to the store. -/
def flushDirty (d : Database) : (Nat × Nat) × Database := d.flushEach d.dirtyHandles

/-- What a shutdown found and did. -/
structure ShutdownReport where
  /-- The transactions still open. -/
  active : Nat
  flushed : Nat
  skipped : Nat
deriving DecidableEq, Repr

/-- Begins no more transactions, writes what is dirty and takes the cache out of operation. -/
def shutdown (d : Database) : ShutdownReport × Database :=
  let (active, registry) := d.registry.shutdown
  let ((flushed, skipped), d) := { d with registry }.flushDirty
  ({ active, flushed, skipped }, { d with cache := d.cache.setOperational false })

/-- A new database over the same store. The instances in memory stay with those who hold them. -/
def restart (d : Database) (settings : Settings) : Except Error Database :=
  new settings d.store d.workspace.pool

end Database
end Folio
