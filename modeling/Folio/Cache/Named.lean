import Folio.Cache.Basic

/-!
A cache whose objects can also be found by name. The index from names to identities follows the
membership of the cache: an object that comes in takes its name over, and an object that leaves
gives its name up unless the name has been taken over by another one.
-/
namespace Folio

open Cache (Added Cacheable Handle Instance Pool ResizeReport Workspace)

structure NamedCache (σ α : Type) where
  base : Cache σ α
  /-- The identity that each name stands for. -/
  names : Table String ObjectId := ∅

namespace NamedCache

variable {σ α : Type}

def new (name : String) (settings : Cache.Settings) : NamedCache σ α where
  base := .new name settings

def attach (c : NamedCache σ α) (w : Workspace σ α) :
    Except Cache.Error (NamedCache σ α × Workspace σ α) := do
  let (base, w) ← c.base.attach w
  return ({ c with base }, w)

def setOperational (c : NamedCache σ α) (operational : Bool) : NamedCache σ α :=
  { c with base := c.base.setOperational operational }

def setFlushHook (c : NamedCache σ α) (hook : Cache.FlushHook σ α) : NamedCache σ α :=
  { c with base := c.base.setFlushHook hook }

/-- What an operation that may move objects leaves behind. -/
structure Result (σ α β : Type) where
  value : β
  cache : NamedCache σ α
  workspace : Workspace σ α

/-- Gives up the name of an instance that left. -/
def unindex [Cacheable α] (pool : Pool α) (names : Table String ObjectId) (h : Handle) :
    Table String ObjectId :=
  match pool.get? h with
  | some i =>
    let name := Cacheable.name i.content
    if names.get? name = some (Cacheable.identity i.content) then names.erase name else names
  | none => names

/-- Takes over the result of an operation on the cache without names. -/
def followUp [Cacheable α] {β : Type} (c : NamedCache σ α) (r : Cache.Result σ α β) :
    Result σ α β :=
  { value := r.value
    cache := { base := r.cache, names := r.left.foldl (unindex r.workspace.pool) c.names }
    workspace := r.workspace }

def get (c : NamedCache σ α) (id : ObjectId) : Option Handle × NamedCache σ α :=
  let (found, base) := c.base.get id
  (found, { c with base })

/-- The identity that a name stands for; this is no use of the object. -/
def lookupName (c : NamedCache σ α) (name : String) : Option ObjectId := c.names.get? name

/-- Looks an object up by name, which makes it the most recently used one. -/
def getByName (c : NamedCache σ α) (name : String) : Option Handle × NamedCache σ α :=
  match c.lookupName name with
  | some id => c.get id
  | none => (none, c)

variable [Cacheable α]

def evict (c : NamedCache σ α) (w : Workspace σ α) : Result σ α (Option ObjectId) :=
  c.followUp (c.base.evict w)

/-- Caches an instance under its identity and, unless it was turned away, under its name. -/
def add (c : NamedCache σ α) (h : Handle) (refCount : UInt32) (w : Workspace σ α) :
    Result σ α (Except Cache.Error Added) :=
  let r := c.followUp (c.base.add h refCount w)
  match r.value, w.pool.get? h with
  | .ok .cached, some i | .ok .replaced, some i =>
    let names := r.cache.names.insert (Cacheable.name i.content) (Cacheable.identity i.content)
    { r with cache := { r.cache with names } }
  | _, _ => r

def remove (c : NamedCache σ α) (id : ObjectId) (w : Workspace σ α) :
    Option Handle × NamedCache σ α :=
  let (removed, base) := c.base.remove id
  (removed, { base, names := removed.toList.foldl (unindex w.pool) c.names })

/-- Takes an object out by name. -/
def removeByName (c : NamedCache σ α) (name : String) (w : Workspace σ α) :
    Option Handle × NamedCache σ α :=
  match c.lookupName name with
  | some id => c.remove id w
  | none => (none, c)

def resize (c : NamedCache σ α) (capacity : Nat) (w : Workspace σ α) :
    Result σ α (Except Cache.Error ResizeReport) :=
  c.followUp (c.base.resize capacity w)

/-! ### Checking out -/

/-- Looks an object up and pins it. -/
def checkout (c : NamedCache σ α) (id : ObjectId) (w : Workspace σ α) :
    Result σ α (Option Handle) :=
  let (found, c) := c.get id
  { value := found, cache := c, workspace := found.elim w (w.modify · Instance.pin) }

/-- Looks an object up by name and pins it. -/
def checkoutByName (c : NamedCache σ α) (name : String) (w : Workspace σ α) :
    Result σ α (Option Handle) :=
  let (found, c) := c.getByName name
  { value := found, cache := c, workspace := found.elim w (w.modify · Instance.pin) }

end NamedCache
end Folio
