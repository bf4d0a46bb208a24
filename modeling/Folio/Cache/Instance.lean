import Folio.Cache.Budget
import Folio.Lock.Basic

/-!
Objects in memory. An object may be in memory more than once, for example when it was replaced in a
cache while it was still in use; each instance has a reference count, a dirty flag and a lock of its
own. Instances are shared between a cache and those who use them, so they live in a pool and are
known by their handles.
-/
namespace Folio.Cache

/-- An object in memory. -/
structure Instance (α : Type) where
  content : α
  /-- How many users have pinned the instance. -/
  refCount : UInt32 := 0
  /-- The content has changed since it was last written back. -/
  dirty : Bool := false
  lock : Lock := {}
deriving DecidableEq, Repr

namespace Instance

variable {α : Type}

def pin (i : Instance α) : Instance α := { i with refCount := i.refCount + 1 }

/-- Takes a pin back; an instance without pins stays without. -/
def unpin (i : Instance α) : Instance α :=
  if i.refCount = 0 then i else { i with refCount := i.refCount - 1 }

def setDirty (i : Instance α) (dirty : Bool) : Instance α := { i with dirty }

def setLock (i : Instance α) (lock : Lock) : Instance α := { i with lock }

@[simp] theorem unpin_content (i : Instance α) : i.unpin.content = i.content := by
  unfold unpin
  split <;> rfl

@[simp] theorem unpin_dirty (i : Instance α) : i.unpin.dirty = i.dirty := by
  unfold unpin
  split <;> rfl

@[simp] theorem unpin_lock (i : Instance α) : i.unpin.lock = i.lock := by
  unfold unpin
  split <;> rfl

end Instance

/-- An instance's number in its pool. -/
abbrev Handle := Nat

/-- All instances, in the order in which they came into memory. -/
structure Pool (α : Type) where
  instances : Array (Instance α) := #[]

namespace Pool

variable {α : Type}

def get? (p : Pool α) (h : Handle) : Option (Instance α) := p.instances[h]?

/-- Brings an instance into memory. -/
def add (p : Pool α) (i : Instance α) : Handle × Pool α :=
  (p.instances.size, ⟨p.instances.push i⟩)

def modify (p : Pool α) (h : Handle) (f : Instance α → Instance α) : Pool α :=
  ⟨p.instances.modify h f⟩

def set (p : Pool α) (h : Handle) (i : Instance α) : Pool α := p.modify h fun _ => i

@[simp] theorem get?_modify (p : Pool α) (h k : Handle) (f : Instance α → Instance α) :
    (p.modify h f).get? k = if h = k then (p.get? k).map f else p.get? k :=
  Array.getElem?_modify

@[simp] theorem get?_set (p : Pool α) (h k : Handle) (i : Instance α) :
    (p.set h i).get? k = if h = k then (p.get? k).map fun _ => i else p.get? k :=
  p.get?_modify h k _

@[simp] theorem get?_add (p : Pool α) (i : Instance α) (k : Handle) :
    (p.add i).2.get? k = if k = (p.add i).1 then some i else p.get? k :=
  Array.getElem?_push

/-- Two pools with the same instances are the same pool. -/
theorem ext_get? {p q : Pool α} (h : ∀ k, p.get? k = q.get? k) : p = q := by
  cases p
  cases q
  exact congrArg Pool.mk (Array.ext_getElem? h)

/-- Changing a new instance is as good as bringing it in changed. -/
theorem modify_add (p : Pool α) (i : Instance α) (f : Instance α → Instance α) :
    (p.add i).2.modify (p.add i).1 f = (p.add (f i)).2 := by
  have hsame : (p.add (f i)).1 = (p.add i).1 := rfl
  refine ext_get? fun k => ?_
  rw [get?_modify, get?_add, get?_add, hsame]
  by_cases hk : k = (p.add i).1
  · rw [if_pos hk.symm, if_pos hk, if_pos hk]
    rfl
  · rw [if_neg (Ne.symm hk), if_neg hk, if_neg hk]

/-- What is put in the place of an instance that is there is there. -/
theorem get?_set_of_some {p : Pool α} {h : Handle} {i : Instance α} (hi : p.get? h = some i)
    (j : Instance α) (k : Handle) : (p.set h j).get? k = if h = k then some j else p.get? k := by
  rw [get?_set]
  split
  · rename_i hk
    rw [← hk, hi]
    rfl
  · rfl

/-- Putting back what is there changes nothing. -/
theorem set_get? {p : Pool α} {h : Handle} {i : Instance α} (hi : p.get? h = some i) :
    p.set h i = p := by
  refine ext_get? fun k => ?_
  rw [get?_set_of_some hi]
  split
  · rename_i hk
    rw [← hk, hi]
  · rfl

end Pool

/-- What a cache has to know of the objects it holds. -/
class Cacheable (α : Type) where
  identity : α → ObjectId
  name : α → String
  /-- The approximate number of bytes in memory. -/
  size : α → Nat
  /-- The object's own say in being evicted, asked under its read lock; it may change the instance
  while it is asked. -/
  allowUnload : Instance α → Bool × Instance α := fun i => (i.refCount == 0, i)

/-- Writes an instance back before a cache lets go of it. The state `σ` is what it writes to; it may
also change the instance. -/
abbrev FlushHook (σ α : Type) := Instance α → σ → Except Error Unit × Instance α × σ

/-- What a cache shares with others: the instances, the budget and what flush hooks write to. -/
structure Workspace (σ α : Type) where
  pool : Pool α := {}
  budget : Budget := {}
  outside : σ

namespace Workspace

variable {σ α : Type}

def setPool (w : Workspace σ α) (pool : Pool α) : Workspace σ α := { w with pool }

def setBudget (w : Workspace σ α) (budget : Budget) : Workspace σ α := { w with budget }

def modify (w : Workspace σ α) (h : Handle) (f : Instance α → Instance α) : Workspace σ α :=
  w.setPool (w.pool.modify h f)

/-- The identity of an instance. -/
def identity? [Cacheable α] (w : Workspace σ α) (h : Handle) : Option ObjectId :=
  (w.pool.get? h).map fun i => Cacheable.identity i.content

end Workspace
end Folio.Cache
