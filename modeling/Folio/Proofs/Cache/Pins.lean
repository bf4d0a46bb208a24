import Folio.Collection
import Folio.Proofs.Cache.Operation
import Folio.Proofs.Cache.Recency

/-! # Pins and evictions

An eviction pass looks at the pins of an object when its turn comes and again when the
object has agreed to leave, but not after the object was written back.  So the passes of
all operations respect pins exactly if the hook does: **`respectsPins_iff`**.  A pin
that arrives while the object is written back goes unseen, as `evict_pinned` shows.
-/
namespace Folio.Cache

variable {σ α : Type} [Cacheable α]

/-- A dirty object that has agreed to leave has no pins when it is written back and may leave. -/
def FlushesUnpinned (hook : Option (FlushHook σ α)) : Prop :=
  ∀ (i j m : Instance α) (held : Lock) (f : FlushHook σ α) (s s' : σ),
    i.refCount = 0 → i.lock.tryAcquire .read = some held →
    Cacheable.allowUnload (i.setLock held) = (true, j) → j.refCount = 0 → j.dirty = true →
    hook = some f → f (j.setDirty false) s = (.ok (), m, s') → m.dirty = false → m.refCount = 0

/-- Whatever an eviction pass of an operation takes out has no pins at that moment. -/
def RespectsPins (hook : Option (FlushHook σ α)) : Prop :=
  ∀ (c : Cache σ α) (w : Workspace σ α) (op : Operation), c.flushHook = hook →
    ∀ pass ∈ c.passes w op, ∀ h ∈ pass.left,
      ∃ k, pass.workspace.pool.get? h = some k ∧ k.refCount = 0

/-! ## What leaves has agreed -/

section Leaving
variable {c : Cache σ α} {w w' : Workspace σ α} {h : Handle}

theorem agrees_of_tryUnload (htry : c.tryUnload h w = (true, w')) :
    ∃ i k, w.pool.get? h = some i ∧ Agrees c.flushHook i w.outside k w'.outside ∧
      w'.pool.get? h = some k := by
  unfold tryUnload at htry
  cases hi : w.pool.get? h with
  | none => simp [hi] at htry
  | some i =>
    rcases hmay : mayUnload c.flushHook i w.outside with ⟨unload, k, s'⟩
    simp only [hi, hmay, Prod.mk.injEq] at htry
    obtain ⟨rfl, rfl⟩ := htry
    exact ⟨i, k, rfl, agrees_of_mayUnload hmay, by simp [hi]⟩

/-- **Every object that a pass takes out agreed to leave**, and is as it was when it agreed. -/
theorem agrees_of_mem_left {exclude : Option ObjectId}
    (hleft : h ∈ (c.evictionPass exclude w).left) :
    ∃ i s k, Agrees c.flushHook i s k (c.evictionPass exclude w).workspace.outside ∧
      (c.evictionPass exclude w).workspace.pool.get? h = some k := by
  rcases evictionPass_cases c exclude w with ⟨w', -, hpass⟩ | ⟨id, h', w', -, hf, hpass⟩
  · rw [hpass] at hleft
    cases hleft
  · rw [hpass] at hleft ⊢
    obtain rfl : h = h' := List.mem_singleton.1 hleft
    obtain ⟨w₀, -, htry⟩ := hf.agreed
    obtain ⟨i, k, -, hk, hpool⟩ := agrees_of_tryUnload htry
    exact ⟨i, w₀.outside, k, hk, hpool⟩

/-- A clean object leaves without pins, and so does a dirty one if its flush leaves it without. -/
theorem Agrees.refCount_eq {hook : Option (FlushHook σ α)} {i k : Instance α} {s s' : σ}
    (hhook : FlushesUnpinned hook) (ha : Agrees hook i s k s') : k.refCount = 0 := by
  cases ha with
  | clean unpinned free allowed still saved => exact still
  | flushed unpinned free allowed still dirty hooked flush saved =>
    have hm := hhook _ _ _ _ _ _ _ unpinned free allowed still dirty hooked flush saved
    exact hm

end Leaving

/-! ## One object, and its hook -/

/-- A cache with one object. -/
def single (hook : Option (FlushHook σ α)) (id : ObjectId) : Cache σ α :=
  { (Cache.new "single" {} : Cache σ α).entered id 0 with flushHook := hook }

omit [Cacheable α] in
theorem ids_single (hook : Option (FlushHook σ α)) (id : ObjectId) :
    (single hook id : Cache σ α).ids = [id] :=
  (Recency.threads_empty.pushBack List.not_mem_nil).toList_eq

/-- Whoever agrees to leave is taken out. -/
theorem evictionPass_single {hook : Option (FlushHook σ α)} {i k : Instance α} {s s' : σ}
    (id : ObjectId) (ha : Agrees hook i s k s') :
    ((single hook id).evictionPass none { pool := ⟨#[i]⟩, outside := s }).left = [0] ∧
      ((single hook id).evictionPass none { pool := ⟨#[i]⟩, outside := s }).workspace.pool.get? 0 =
        some k := by
  have htry : (single hook id).tryUnload 0 { pool := ⟨#[i]⟩, outside := s } =
      (true, { pool := ⟨#[k]⟩, outside := s' }) := by
    unfold tryUnload
    simp [Pool.get?, Pool.set, Pool.modify, single, entered, mayUnload_of_agrees ha]
  have hget : (single hook id : Cache σ α).entries.get? id = some 0 := by simp [single, entered]
  have hsearch : (single hook id).search none 3 { pool := ⟨#[i]⟩, outside := s } =
      (some (id, 0), { pool := ⟨#[k]⟩, outside := s' }) := by
    simp only [search, ids_single, scan, hget, htry, reduceCtorEq, ite_false]
  rw [evictionPass_of_search hsearch]
  exact ⟨rfl, rfl⟩

/-- **Pins are respected exactly if no flush that lets an object go leaves it pinned.** -/
theorem respectsPins_iff (hook : Option (FlushHook σ α)) :
    RespectsPins hook ↔ FlushesUnpinned hook := by
  constructor
  -- what a hook does to one object shows in a cache that holds nothing else
  · intro hpins i j m held f s s' unpinned free allowed still dirty hooked flush saved
    have ha : Agrees hook i s (m.setLock (m.lock.releaseIfHeld .read)) s' :=
      .flushed unpinned free allowed still dirty hooked flush saved
    obtain ⟨hleft, hpool⟩ := evictionPass_single 0 ha
    obtain ⟨k, hk, hcount⟩ := hpins (single hook 0) { pool := ⟨#[i]⟩, outside := s } .evict rfl _
      (List.mem_singleton_self _) 0 (by rw [hleft]; exact List.mem_singleton_self 0)
    rw [hpool] at hk
    cases hk
    exact hcount
  · rintro hhook c w op rfl pass hpass h hleft
    obtain ⟨c', exclude, w', hc', rfl⟩ := exists_of_mem_passes hpass
    obtain ⟨i, s, k, ha, hpool⟩ := agrees_of_mem_left hleft
    exact ⟨k, hpool, (hc' ▸ ha).refCount_eq hhook⟩

/-! ## A pin that goes unseen -/

/-- A hook that pins what it writes. -/
def pinning : FlushHook Unit Record := fun i s => (.ok (), i.pin, s)

/-- A dirty object that its hook pins leaves the cache with that pin. -/
theorem evict_pinned :
    let pass := (single (some pinning) 7).evict
      { pool := ⟨#[{ content := { id := 7, name := "/db" }, dirty := true }]⟩, outside := () }
    pass.left = [0] ∧ (pass.workspace.pool.get? 0).map (·.refCount) = some 1 := by
  decide

end Folio.Cache
