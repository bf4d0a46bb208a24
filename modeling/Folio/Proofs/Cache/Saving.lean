import Folio.Proofs.Cache.Departures
import Folio.Proofs.Cache.Pins

/-! # Changes are saved before objects leave

An eviction pass may come to an object several times, and each time the flag of a dirty
one is cleared before the hook runs.  **`evictions_save`** says that no change is lost by
this: what leaves is clean, and was written back if it was dirty when the pass came to it;
what stays and was dirty is dirty.  Nothing is asked of the hook, and of the objects only
that they leave their flags alone when they are asked (`LeavesFlags`).

The passes of an operation are taken together with their beginnings (`starts`).
-/
namespace Folio.Cache

variable {σ α : Type} [Cacheable α]

/-- An object that is asked whether it may go leaves its dirty flag as it is. -/
def LeavesFlags (α : Type) [Cacheable α] : Prop :=
  ∀ i : Instance α, (Cacheable.allowUnload i).2.dirty = i.dirty

/-! ## The passes of an operation -/

/-- The beginning of an eviction pass. -/
structure Start (σ α : Type) where
  cache : Cache σ α
  exclude : Option ObjectId
  workspace : Workspace σ α

/-- The pass that begins so. -/
def Start.pass (s : Start σ α) : Result σ α (Option ObjectId) :=
  s.cache.evictionPass s.exclude s.workspace

/-- The beginnings of the passes that evict up to `count` objects. -/
def startsUpTo (c : Cache σ α) (w : Workspace σ α) : (count : Nat) → List (Start σ α)
  | 0 => []
  | count + 1 =>
    let start : Start σ α := ⟨c, none, w⟩
    match start.pass.value with
    | none => [start]
    | some _ => start :: startsUpTo start.pass.cache start.pass.workspace count

/-- The beginnings of the eviction passes that an operation runs. -/
def starts (c : Cache σ α) (w : Workspace σ α) : Operation → List (Start σ α)
  | .add h refCount =>
    match c.operational, w.identity? h with
    | true, some id =>
      if (c.entries.get? id).isSome ∨ (c.entered id h).size ≤ c.capacity then []
      else [⟨c.entered id h, some id, w.modify h ({ · with refCount })⟩]
    | _, _ => []
  | .evict => [⟨c, none, w⟩]
  | .resize capacity => if c.capacity ≤ capacity then [] else c.startsUpTo w (c.size - capacity)
  | _ => []

theorem passesUpTo_eq (c : Cache σ α) (w : Workspace σ α) (count : Nat) :
    c.passesUpTo w count = (c.startsUpTo w count).map (·.pass) := by
  induction count generalizing c w with
  | zero => rfl
  | succ count ih =>
    unfold passesUpTo startsUpTo
    dsimp only [Start.pass]
    cases (c.evictionPass none w).value with
    | none => rfl
    | some id =>
      rw [List.map_cons, ih]
      rfl

theorem passes_eq (c : Cache σ α) (w : Workspace σ α) (op : Operation) :
    c.passes w op = (c.starts w op).map (·.pass) := by
  cases op with
  | add h refCount =>
    simp only [passes, starts]
    cases c.operational with
    | false => rfl
    | true =>
      cases w.identity? h with
      | none => rfl
      | some id =>
        dsimp only
        split <;> rfl
  | resize capacity =>
    simp only [passes, starts]
    split
    · rfl
    · exact c.passesUpTo_eq w _
  | _ => rfl

/-- What a pass leaves as it is, every pass of several begins with. -/
theorem startsUpTo_induction {P : Cache σ α → Prop}
    (evicted : ∀ c w, P c → P (c.evictionPass none w).cache) {c : Cache σ α} (hP : P c)
    {w : Workspace σ α} {count : Nat} {start : Start σ α}
    (hstart : start ∈ c.startsUpTo w count) : P start.cache := by
  induction count generalizing c w with
  | zero => cases hstart
  | succ count ih =>
    unfold startsUpTo at hstart
    dsimp only at hstart
    split at hstart
    · rw [List.mem_singleton.1 hstart]
      exact hP
    · rcases List.mem_cons.1 hstart with rfl | hstart
      · exact hP
      · exact ih (evicted c w hP) hstart

/-- **What a pass and a new entry leave as it is, every pass of an operation begins with.** -/
theorem starts_induction {P : Cache σ α → Prop}
    (evicted : ∀ c w, P c → P (c.evictionPass none w).cache) {c : Cache σ α} (hP : P c)
    (entered : ∀ id h, c.entries.get? id = none → P (c.entered id h)) {w : Workspace σ α}
    {op : Operation} {start : Start σ α} (hstart : start ∈ c.starts w op) : P start.cache := by
  cases op with
  | add h refCount =>
    simp only [starts] at hstart
    split at hstart
    · split at hstart
      · cases hstart
      · rename_i id _ _ hroom
        rw [List.mem_singleton.1 hstart]
        exact entered id h (by simpa using (not_or.1 hroom).1)
    · cases hstart
  | evict =>
    rw [List.mem_singleton.1 hstart]
    exact hP
  | resize capacity =>
    simp only [starts] at hstart
    split at hstart
    · cases hstart
    · exact startsUpTo_induction evicted hP hstart
  | _ => cases hstart

/-- A pass begins with the hook that the cache has. -/
theorem flushHook_of_mem_starts {c : Cache σ α} {w : Workspace σ α} {op : Operation}
    {start : Start σ α} (hstart : start ∈ c.starts w op) :
    start.cache.flushHook = c.flushHook :=
  starts_induction (P := fun c' => c'.flushHook = c.flushHook)
    (fun c' w' hc' => (perform_wiring c' w' .evict).1.trans hc') rfl (fun _ _ _ => rfl) hstart

/-! ## What stays -/

section Staying
variable {hook : Option (FlushHook σ α)} {c : Cache σ α} {w w₁ w' : Workspace σ α} {h : Handle}
  {exclude : Option ObjectId}

/-- Every instance that was dirty is dirty. -/
def Workspace.StaysDirty (w w' : Workspace σ α) : Prop :=
  ∀ h i, w.pool.get? h = some i → i.dirty = true → ∃ k, w'.pool.get? h = some k ∧ k.dirty = true

omit [Cacheable α] in
theorem Workspace.StaysDirty.trans (h : w.StaysDirty w₁) (h' : w₁.StaysDirty w') :
    w.StaysDirty w' := by
  intro g i hi hdirty
  obtain ⟨j, hj, hdirty'⟩ := h g i hi hdirty
  exact h' g j hj hdirty'

omit [Cacheable α] in
/-- Whatever keeps an object from being written back, there is something to be written. -/
theorem dirty_of_flushBeforeUnload {i k : Instance α} {s s' : σ}
    (h : flushBeforeUnload hook i s = (false, k, s')) : k.dirty = true := by
  unfold flushBeforeUnload at h
  cases hd : i.dirty with
  | false => simp [hd] at h
  | true =>
    rw [hd, if_pos rfl] at h
    cases hook with
    | none =>
      cases h
      exact hd
    | some f =>
      rcases hf : f (i.setDirty false) s with ⟨_ | _, m, s''⟩ <;> simp only [hf] at h
      · cases h
        rfl
      · simp only [Prod.mk.injEq, Bool.not_eq_false'] at h
        obtain ⟨hm, rfl, -⟩ := h
        exact hm

/-- **A dirty object that may not leave stays dirty**: it was not asked, or it did not agree, or it
was not written back. -/
theorem dirty_of_mayUnload (hflags : LeavesFlags α) {i k : Instance α} {s s' : σ}
    (h : mayUnload hook i s = (false, k, s')) (hdirty : i.dirty = true) : k.dirty = true := by
  unfold mayUnload at h
  split at h
  · cases h
    exact hdirty
  · split at h
    · cases h
      exact hdirty
    · rename_i held _
      have hasked := (hflags (i.setLock held)).trans hdirty
      rcases hallow : Cacheable.allowUnload (i.setLock held) with ⟨allowed, j⟩
      rw [hallow] at hasked
      simp only [hallow] at h
      split at h
      · rcases hflush : flushBeforeUnload hook j s with ⟨unload, m, s''⟩
        simp only [hflush, Prod.mk.injEq] at h
        obtain ⟨rfl, rfl, -⟩ := h
        have hm := dirty_of_flushBeforeUnload hflush
        exact hm
      · simp only [Prod.mk.injEq, true_and] at h
        obtain ⟨rfl, -⟩ := h
        exact hasked

/-- Only the instance that is asked can change. -/
theorem get?_tryUnload_of_ne {g : Handle} (hne : g ≠ h) (c : Cache σ α) (w : Workspace σ α) :
    (c.tryUnload h w).2.pool.get? g = w.pool.get? g := by
  unfold tryUnload
  split
  · rfl
  · simp [Ne.symm hne]

theorem staysDirty_of_tryUnload (hflags : LeavesFlags α) (h : Handle)
    (htry : c.tryUnload h w = (false, w')) : w.StaysDirty w' := by
  intro g i hi hdirty
  by_cases hg : g = h
  · subst hg
    unfold tryUnload at htry
    rcases hmay : mayUnload c.flushHook i w.outside with ⟨unload, k, s'⟩
    simp only [hi, hmay, Prod.mk.injEq] at htry
    obtain ⟨rfl, rfl⟩ := htry
    exact ⟨k, by simp [hi], dirty_of_mayUnload hflags hmay hdirty⟩
  · have hsame := get?_tryUnload_of_ne hg c w
    rw [htry] at hsame
    exact ⟨i, hsame.trans hi, hdirty⟩

/-- **Asking in vain loses no change**, however often it is done. -/
theorem Refused.staysDirty (hflags : LeavesFlags α) (hr : Refused c w w') : w.StaysDirty w' := by
  induction hr with
  | nobody => exact fun _ i hi hdirty => ⟨i, hi, hdirty⟩
  | next _ _ refusal ih => exact ih.trans (staysDirty_of_tryUnload hflags _ refusal)

end Staying

/-! ## What leaves -/

/-- The instance `i` was written back and is `k`: it was asked under its read lock, the hook was
called on it and succeeded, and nothing was changed in it since. -/
def WrittenBack (hook : Option (FlushHook σ α)) (i : Instance α) (s : σ) (k : Instance α) (s' : σ) :
    Prop :=
  ∃ f held m, hook = some f ∧ i.lock.tryAcquire .read = some held ∧
    f ((Cacheable.allowUnload (i.setLock held)).2.setDirty false) s = (.ok (), m, s') ∧
    m.dirty = false ∧ k = m.setLock (m.lock.releaseIfHeld .read)

section Leaving
variable {c : Cache σ α} {w w' : Workspace σ α} {h : Handle} {op : Operation} {start : Start σ α}

theorem Agrees.saved {hook : Option (FlushHook σ α)} {i k : Instance α} {s s' : σ}
    (hflags : LeavesFlags α) (ha : Agrees hook i s k s') :
    k.dirty = false ∧ (i.dirty = true → WrittenBack hook i s k s') := by
  cases ha with
  | @clean held j unpinned free allowed still saved =>
    have hasked := hflags (i.setLock held)
    rw [allowed] at hasked
    refine ⟨saved, fun hdirty => ?_⟩
    exact absurd (hasked.trans hdirty) (saved ▸ Bool.false_ne_true)
  | flushed unpinned free allowed still dirty hooked flush saved =>
    exact ⟨saved, fun _ => ⟨_, _, _, hooked, free, by rw [allowed]; exact flush, saved, rfl⟩⟩

/-- **Who leaves with a pass** is clean and was written back if need be. -/
theorem saved_of_mem_left (hflags : LeavesFlags α) (hleft : h ∈ start.pass.left) :
    ∃ reached i k, Refused start.cache start.workspace reached ∧ reached.pool.get? h = some i ∧
      (∀ j, start.workspace.pool.get? h = some j → j.dirty = true → i.dirty = true) ∧
      start.pass.workspace.pool.get? h = some k ∧ k.dirty = false ∧
      (i.dirty = true → WrittenBack start.cache.flushHook i reached.outside k
        start.pass.workspace.outside) := by
  unfold Start.pass at hleft ⊢
  rcases evictionPass_cases start.cache start.exclude start.workspace with
    ⟨w', -, hpass⟩ | ⟨id, h', w', -, hf, hpass⟩
  · rw [hpass] at hleft
    cases hleft
  · rw [hpass] at hleft ⊢
    obtain rfl := List.mem_singleton.1 hleft
    obtain ⟨reached, hr, htry⟩ := hf.agreed
    obtain ⟨i, k, hi, ha, hk⟩ := agrees_of_tryUnload htry
    obtain ⟨hclean, hwritten⟩ := ha.saved hflags
    refine ⟨reached, i, k, hr, hi, fun j hj hdirty => ?_, hk, hclean, hwritten⟩
    obtain ⟨i', hi', hdirty'⟩ := hr.staysDirty hflags h j hj hdirty
    obtain rfl := Option.some.inj (hi.symm.trans hi')
    exact hdirty'

/-- **Who does not leave with a pass** stays dirty. -/
theorem dirty_of_not_mem_left (hflags : LeavesFlags α) (hleft : h ∉ start.pass.left)
    {i : Instance α} (hi : start.workspace.pool.get? h = some i) (hdirty : i.dirty = true) :
    ∃ k, start.pass.workspace.pool.get? h = some k ∧ k.dirty = true := by
  unfold Start.pass at hleft ⊢
  rcases evictionPass_cases start.cache start.exclude start.workspace with
    ⟨w', hr, hpass⟩ | ⟨id, h', w', -, hf, hpass⟩
  · rw [hpass]
    exact hr.staysDirty hflags h i hi hdirty
  · rw [hpass] at hleft ⊢
    obtain ⟨reached, hr, htry⟩ := hf.agreed
    obtain ⟨k, hk, hdirty'⟩ := hr.staysDirty hflags h i hi hdirty
    have hother := get?_tryUnload_of_ne (fun heq => hleft (List.mem_singleton.2 heq)) start.cache
      reached
    rw [htry] at hother
    exact ⟨k, hother.trans hk, hdirty'⟩

theorem exists_start_of_mem_left (hleft : h ∈ (c.passes w op).flatMap (·.left)) :
    ∃ start ∈ c.starts w op, h ∈ start.pass.left := by
  rw [passes_eq, List.mem_flatMap] at hleft
  obtain ⟨pass, hpass, hleft⟩ := hleft
  obtain ⟨start, hstart, rfl⟩ := List.mem_map.1 hpass
  exact ⟨start, hstart, hleft⟩

/-- **An object is gone only if its owner took it out or replaced it, or it left with a pass.** -/
theorem exists_start_of_gone {k : ObjectId} (hin : c.entries.get? k = some h)
    (hgone : (c.perform w op).1.entries.get? k ≠ some h) :
    op = .remove k ∨ (∃ g refCount, op = .add g refCount ∧ w.identity? g = some k) ∨
      ∃ start ∈ c.starts w op, h ∈ start.pass.left := by
  cases op with
  | get id =>
    rw [perform, entries_get] at hgone
    exact absurd hin hgone
  | remove id =>
    refine Or.inl (congrArg _ (Decidable.byContradiction fun hne => hgone ?_))
    rw [perform, Cache.remove]
    split
    · rw [Cache.drop, Table.get?_erase, if_neg (Ne.symm hne), hin]
    · exact hin
  | setOperational operational => exact absurd hin hgone
  | evict =>
    refine Or.inr (Or.inr ⟨_, List.mem_singleton_self _, ?_⟩)
    exact Decidable.byContradiction fun hleft =>
      hgone ((departs_evictionPass c none w).stays k h hin hleft)
  | resize capacity =>
    refine Or.inr (Or.inr (exists_start_of_mem_left ?_))
    have hleft : h ∈ (c.resize capacity w).left := Decidable.byContradiction fun hleft =>
      hgone ((departs_resize c capacity w).stays k h hin hleft)
    rcases resize_cases c capacity w with
      ⟨e, hresize⟩ | ⟨b, -, hresize⟩ | ⟨_, b, hlt, rfl, hpasses, -, -⟩
    · rw [hresize] at hleft
      cases hleft
    · rw [hresize] at hleft
      cases hleft
    · rw [passes, if_neg (Nat.not_le.2 hlt), ← left_evictUpTo, ← hpasses]
      exact hleft
  | add g refCount =>
    rcases c.add_entries g refCount w with
      ⟨-, -, hcache⟩ | ⟨id, hid, ⟨previous, -, -, -, hentries⟩ | ⟨hnew, hdeparts, hvalue⟩⟩
    · rw [perform, hcache] at hgone
      exact absurd hin hgone
    · refine Or.inr (Or.inl ⟨g, refCount, rfl, ?_⟩)
      rw [perform, hentries, Table.get?_insert] at hgone
      grind
    · have hne : k ≠ id := by
        rintro rfl
        rw [hnew] at hin
        cases hin
      have hentered := ((c.enters_entered id g).get?_of_ne hne).trans hin
      rcases hvalue with ⟨hvalue, -⟩ | ⟨-, hentries⟩
      · refine Or.inr (Or.inr (exists_start_of_mem_left ?_))
        rw [← left_add hvalue]
        exact Decidable.byContradiction fun hleft => hgone (hdeparts.stays k h hentered hleft)
      · rw [perform, hentries, Table.get?_erase, if_neg hne] at hgone
        exact absurd hentered hgone

/-- Who is still cached has not left, unless he was cached under another identity as well. -/
theorem not_mem_left_of_cached {k : ObjectId}
    (hin : start.pass.cache.entries.get? k = some h)
    (honce : ∀ k', start.cache.entries.get? k' = some h → k' = k) : h ∉ start.pass.left := by
  intro hleft
  obtain ⟨k', hk', hnone⟩ :=
    (departs_evictionPass start.cache start.exclude start.workspace).gone h hleft
  rw [honce k' hk'] at hnone
  cases hnone.symm.trans hin

end Leaving

/-! ## Every eviction -/

/-- **No change is lost by evictions.**  An object that is gone after an operation was taken out or
replaced by the owner, or it left with one of the operation's passes.  Whatever leaves with a pass
is clean, and if it was dirty when the pass came to it, it was written back by the hook and not
changed since; it was dirty then if it was dirty when the pass began.  Whatever does not leave with
a pass and was dirty before it is dirty after it; and what is still cached has not left, as long as
it is cached under one identity only. -/
theorem evictions_save (hflags : LeavesFlags α) (c : Cache σ α) (w : Workspace σ α)
    (op : Operation) :
    (∀ k h, c.entries.get? k = some h → (c.perform w op).1.entries.get? k ≠ some h →
      op = .remove k ∨ (∃ g refCount, op = .add g refCount ∧ w.identity? g = some k) ∨
        ∃ start ∈ c.starts w op, h ∈ start.pass.left) ∧
    ∀ start ∈ c.starts w op,
      (∀ h ∈ start.pass.left, ∃ reached i k, Refused start.cache start.workspace reached ∧
        reached.pool.get? h = some i ∧
        (∀ j, start.workspace.pool.get? h = some j → j.dirty = true → i.dirty = true) ∧
        start.pass.workspace.pool.get? h = some k ∧ k.dirty = false ∧
        (i.dirty = true →
          WrittenBack c.flushHook i reached.outside k start.pass.workspace.outside)) ∧
      (∀ h ∉ start.pass.left, ∀ i, start.workspace.pool.get? h = some i → i.dirty = true →
        ∃ k, start.pass.workspace.pool.get? h = some k ∧ k.dirty = true) ∧
      ∀ k h, start.pass.cache.entries.get? k = some h →
        (∀ k', start.cache.entries.get? k' = some h → k' = k) → h ∉ start.pass.left := by
  refine ⟨fun k h => exists_start_of_gone, fun start hstart => ⟨fun h hleft => ?_,
    fun h hleft i => dirty_of_not_mem_left hflags hleft, fun k h => not_mem_left_of_cached⟩⟩
  rw [← flushHook_of_mem_starts hstart]
  exact saved_of_mem_left hflags hleft

/-! ## A hook that fails once -/

/-- A hook that fails when it is called for the first time. -/
def failsOnce : FlushHook Nat Record := fun i calls =>
  (if calls = 0 then .error (.flush i.content.id "not now") else .ok (), i, calls + 1)

/-- A cache with two dirty collections. -/
def unsaved : Cache Nat Record × Workspace Nat Record :=
  ((((new "collections" {} : Cache Nat Record).entered 7 0).entered 8 1).setFlushHook failsOnce,
    { pool := ⟨#[{ content := { id := 7, name := "/db" }, dirty := true },
        { content := { id := 8, name := "/tmp" }, dirty := true }]⟩
      outside := 0 })

/-- The first collection could not be written and stays dirty; the second one is written and
leaves. -/
theorem evictions_save_unsaved : ∃ start ∈ unsaved.1.starts unsaved.2 .evict,
    start.pass.left = [1] ∧
    (∃ k, start.pass.workspace.pool.get? 1 = some k ∧ k.dirty = false) ∧
    ∃ k, start.pass.workspace.pool.get? 0 = some k ∧ k.dirty = true := by
  have hsave := evictions_save (fun _ : Instance Record => rfl) unsaved.1 unsaved.2 .evict
  obtain ⟨hleaves, hstays, -⟩ := hsave.2 _ (List.mem_singleton_self _)
  obtain ⟨reached, i, k, -, -, -, hk, hclean, -⟩ := hleaves 1 (by decide)
  exact ⟨_, List.mem_singleton_self _, by decide, ⟨k, hk, hclean⟩,
    hstays 0 (by decide) _ rfl rfl⟩

end Folio.Cache
