import Mathlib.Tactic.Common
import Folio.Cache.Basic

/-! # What an eviction pass does

A pass asks the cached instances one after another whether they may leave, several
times over if need be, and takes out the first one that may.  So it is described by
two relations: `Refused c w w'` says that asking some instances in vain took the
workspace from `w` to `w'`, and `Agrees hook i s k s'` says what an instance `i` went
through that may leave and is `k` when it does.  Everything that is proved of
evictions goes through `evictionPass_cases`: either all were refused, or all that were
asked before one that agreed.
-/
namespace Folio.Cache

variable {σ α : Type} [Cacheable α]

/-! ## One instance -/

/-- **How an instance comes to leave.**  It stood as `i` when its turn came and `s` was
outside; it is `k` when it leaves, and `s'` is outside. -/
inductive Agrees (hook : Option (FlushHook σ α)) (i : Instance α) (s : σ) :
    Instance α → σ → Prop
  /-- It has no pins, before and after it was asked under its read lock, and is clean. -/
  | clean {held : Lock} {j : Instance α} (unpinned : i.refCount = 0)
      (free : i.lock.tryAcquire .read = some held)
      (allowed : Cacheable.allowUnload (i.setLock held) = (true, j))
      (still : j.refCount = 0) (saved : j.dirty = false) :
      Agrees hook i s (j.setLock (j.lock.releaseIfHeld .read)) s
  /-- It is dirty, and its flush succeeded and left it clean. -/
  | flushed {held : Lock} {j m : Instance α} {f : FlushHook σ α} {s' : σ}
      (unpinned : i.refCount = 0) (free : i.lock.tryAcquire .read = some held)
      (allowed : Cacheable.allowUnload (i.setLock held) = (true, j))
      (still : j.refCount = 0) (dirty : j.dirty = true) (hooked : hook = some f)
      (flush : f (j.setDirty false) s = (.ok (), m, s')) (saved : m.dirty = false) :
      Agrees hook i s (m.setLock (m.lock.releaseIfHeld .read)) s'

omit [Cacheable α] in
theorem flushBeforeUnload_true {hook : Option (FlushHook σ α)} {j m : Instance α} {s s' : σ}
    (h : flushBeforeUnload hook j s = (true, m, s')) :
    (j.dirty = false ∧ m = j ∧ s' = s) ∨
      (j.dirty = true ∧ ∃ f, hook = some f ∧ f (j.setDirty false) s = (.ok (), m, s') ∧
        m.dirty = false) := by
  unfold flushBeforeUnload at h
  cases hd : j.dirty with
  | false =>
    simp only [hd, Bool.false_eq_true, ite_false, Prod.mk.injEq, true_and] at h
    exact Or.inl ⟨rfl, h.1.symm, h.2.symm⟩
  | true =>
    rw [hd, if_pos rfl] at h
    cases hook with
    | none => simp at h
    | some f =>
      refine Or.inr ⟨rfl, f, rfl, ?_⟩
      rcases hf : f (j.setDirty false) s with ⟨_ | _, m', s''⟩ <;>
        simp only [hf, Prod.mk.injEq, Bool.not_eq_eq_eq_not, Bool.not_true, Bool.false_eq_true,
          false_and] at h
      obtain ⟨hm, rfl, rfl⟩ := h
      exact ⟨rfl, hm⟩

theorem agrees_of_mayUnload {hook : Option (FlushHook σ α)} {i k : Instance α} {s s' : σ}
    (h : mayUnload hook i s = (true, k, s')) : Agrees hook i s k s' := by
  unfold mayUnload at h
  by_cases hpin : i.refCount = 0
  · rw [if_neg (by simpa using hpin)] at h
    cases hheld : i.lock.tryAcquire .read with
    | none => simp [hheld] at h
    | some held =>
      rcases hj : Cacheable.allowUnload (i.setLock held) with ⟨allowed, j⟩
      simp only [hheld, hj] at h
      by_cases hok : (allowed && j.refCount == 0) = true
      · obtain ⟨rfl, hstill⟩ : allowed = true ∧ j.refCount = 0 := by simpa using hok
        rw [if_pos hok] at h
        rcases hm : flushBeforeUnload hook j s with ⟨unload, m, s''⟩
        simp only [hm, Prod.mk.injEq] at h
        obtain ⟨rfl, rfl, rfl⟩ := h
        rcases flushBeforeUnload_true hm with ⟨hd, rfl, rfl⟩ | ⟨hd, f, hf, hrun, hsaved⟩
        · exact .clean hpin hheld hj hstill hd
        · exact .flushed hpin hheld hj hstill hd hf hrun hsaved
      · rw [if_neg hok] at h
        simp at h
  · rw [if_pos hpin] at h
    simp at h

theorem mayUnload_of_agrees {hook : Option (FlushHook σ α)} {i k : Instance α} {s s' : σ}
    (h : Agrees hook i s k s') : mayUnload hook i s = (true, k, s') := by
  cases h with
  | clean unpinned free allowed still saved =>
    simp [mayUnload, unpinned, free, allowed, still, flushBeforeUnload, saved]
  | flushed unpinned free allowed still dirty hooked flush saved =>
    simp [mayUnload, unpinned, free, allowed, still, flushBeforeUnload, dirty, hooked, flush, saved]

/-! ## One pass -/

/-- Asking some of the cached instances, all in vain, takes one workspace to another. -/
inductive Refused (c : Cache σ α) (w : Workspace σ α) : Workspace σ α → Prop
  | nobody : Refused c w w
  | next {w₁ w₂ : Workspace σ α} {id : ObjectId} {h : Handle} (before : Refused c w w₁)
      (entry : c.entries.get? id = some h) (refusal : c.tryUnload h w₁ = (false, w₂)) :
      Refused c w w₂

/-- The instance `h`, cached under `id`, was the first to agree; `w'` is the workspace after. -/
structure Finds (c : Cache σ α) (exclude : Option ObjectId) (w : Workspace σ α) (id : ObjectId)
    (h : Handle) (w' : Workspace σ α) : Prop where
  entry : c.entries.get? id = some h
  other : exclude ≠ some id
  agreed : ∃ w₀, Refused c w w₀ ∧ c.tryUnload h w₀ = (true, w')

variable {c : Cache σ α} {exclude : Option ObjectId} {w w₀ w' : Workspace σ α} {id : ObjectId}
  {h : Handle}

theorem Refused.trans {w₁ w₂ : Workspace σ α} (h₁ : Refused c w w₁) (h₂ : Refused c w₁ w₂) :
    Refused c w w₂ := by
  induction h₂ with
  | nobody => exact h₁
  | next _ entry refusal ih => exact ih.next entry refusal

theorem Finds.after {w₁ : Workspace σ α} (h₁ : Refused c w w₁) (h₂ : Finds c exclude w₁ id h w') :
    Finds c exclude w id h w' :=
  ⟨h₂.entry, h₂.other, h₂.agreed.imp fun _ ha => ⟨h₁.trans ha.1, ha.2⟩⟩

theorem scan_cases (c : Cache σ α) (exclude : Option ObjectId) (ids : List ObjectId)
    (w : Workspace σ α) :
    (∃ w', c.scan exclude ids w = (none, w') ∧ Refused c w w') ∨
      ∃ id h w', c.scan exclude ids w = (some (id, h), w') ∧ id ∈ ids ∧
        Finds c exclude w id h w' := by
  induction ids generalizing w with
  | nil => exact Or.inl ⟨w, rfl, .nobody⟩
  | cons id ids ih =>
    -- an identity that is passed over leaves the answer to the rest of the scan
    have skip (w₁ : Workspace σ α) (hw : Refused c w w₁)
        (heq : c.scan exclude (id :: ids) w = c.scan exclude ids w₁) :
        (∃ w', c.scan exclude (id :: ids) w = (none, w') ∧ Refused c w w') ∨
          ∃ id' h w', c.scan exclude (id :: ids) w = (some (id', h), w') ∧ id' ∈ id :: ids ∧
            Finds c exclude w id' h w' := by
      rw [heq]
      rcases ih w₁ with ⟨w', hs, hr⟩ | ⟨id', h, w', hs, hm, hf⟩
      · exact Or.inl ⟨w', hs, hw.trans hr⟩
      · exact Or.inr ⟨id', h, w', hs, List.mem_cons_of_mem _ hm, hf.after hw⟩
    by_cases hex : exclude = some id
    · exact skip w .nobody (by rw [scan, if_pos hex])
    cases hget : c.entries.get? id with
    | none => exact skip w .nobody (by rw [scan, if_neg hex, hget])
    | some h =>
      rcases htry : c.tryUnload h w with ⟨unload, w₁⟩
      cases unload with
      | false =>
        exact skip w₁ (Refused.nobody.next hget htry) (by simp only [scan, if_neg hex, hget, htry])
      | true =>
        exact Or.inr ⟨id, h, w₁, by simp only [scan, if_neg hex, hget, htry],
          List.mem_cons_self .., hget, hex, w, .nobody, htry⟩

theorem search_cases (c : Cache σ α) (exclude : Option ObjectId) (attempts : Nat)
    (w : Workspace σ α) :
    (∃ w', c.search exclude attempts w = (none, w') ∧ Refused c w w') ∨
      ∃ id h w', c.search exclude attempts w = (some (id, h), w') ∧ id ∈ c.ids ∧
        Finds c exclude w id h w' := by
  induction attempts generalizing w with
  | zero => exact Or.inl ⟨w, rfl, .nobody⟩
  | succ attempts ih =>
    rcases scan_cases c exclude c.ids w with ⟨w₁, hs, hr⟩ | ⟨id, h, w', hs, hm, hf⟩
    · have heq : c.search exclude (attempts + 1) w = c.search exclude attempts w₁ := by
        simp only [search, hs]
      rw [heq]
      rcases ih w₁ with ⟨w', hs, hr'⟩ | ⟨id, h, w', hs, hm, hf⟩
      · exact Or.inl ⟨w', hs, hr.trans hr'⟩
      · exact Or.inr ⟨id, h, w', hs, hm, hf.after hr⟩
    · exact Or.inr ⟨id, h, w', by simp only [search, hs], hm, hf⟩

/-- The cache after an eviction. -/
def evicted (c : Cache σ α) (id : ObjectId) : Cache σ α :=
  { c.drop id with accounting := c.accounting.recordEviction id }

/-- What the search finds is taken out. -/
theorem evictionPass_of_search {c : Cache σ α} {exclude : Option ObjectId} {w w' : Workspace σ α}
    {id : ObjectId} {h : Handle}
    (hs : c.search exclude (max c.settings.evictionAttempts 1) w = (some (id, h), w')) :
    c.evictionPass exclude w =
      { value := some id, left := [h], cache := c.evicted id, workspace := w' } := by
  unfold evictionPass
  rw [hs]
  rfl

/-- **The two outcomes of an eviction pass.** -/
theorem evictionPass_cases (c : Cache σ α) (exclude : Option ObjectId) (w : Workspace σ α) :
    (∃ w', Refused c w w' ∧
      c.evictionPass exclude w = { value := none, cache := c, workspace := w' }) ∨
    ∃ id h w', id ∈ c.ids ∧ Finds c exclude w id h w' ∧
      c.evictionPass exclude w =
        { value := some id, left := [h], cache := c.evicted id, workspace := w' } := by
  rcases search_cases c exclude (max c.settings.evictionAttempts 1) w with
    ⟨w', hs, hr⟩ | ⟨id, h, w', hs, hm, hf⟩
  · exact Or.inl ⟨w', hr, by rw [evictionPass, hs]⟩
  · exact Or.inr ⟨id, h, w', hm, hf, evictionPass_of_search hs⟩

/-- **What a pass takes out**, where every scan finds the same. -/
theorem value_evictionPass {P : Workspace σ α → Prop} {first : Option ObjectId}
    (kept : ∀ w w', P w → Refused c w w' → P w')
    (scans : ∀ w, P w → (c.scan exclude c.ids w).1.map (·.1) = first) (hw : P w) :
    (c.evictionPass exclude w).value = first := by
  have hsearch (attempts : Nat) (w : Workspace σ α) (hw : P w) :
      (c.search exclude (attempts + 1) w).1.map (·.1) = first := by
    induction attempts generalizing w with
    | zero =>
      rw [← scans w hw]
      unfold search
      rcases c.scan exclude c.ids w with ⟨_ | found, w'⟩ <;> rfl
    | succ attempts ih =>
      have hscan := scans w hw
      unfold search
      rcases scan_cases c exclude c.ids w with ⟨w', hcase, hr⟩ | ⟨id, h, w', hcase, -, -⟩
      · rw [hcase]
        exact ih w' (kept w w' hw hr)
      · rw [hcase] at hscan ⊢
        exact hscan
  obtain ⟨attempts, hattempts⟩ : ∃ n, max c.settings.evictionAttempts 1 = n + 1 :=
    Nat.exists_eq_add_one.2 (Nat.le_max_right ..)
  rw [← hsearch attempts w hw, ← hattempts]
  unfold evictionPass
  rcases c.search exclude (max c.settings.evictionAttempts 1) w with ⟨_ | ⟨id, h⟩, w'⟩ <;> rfl

end Folio.Cache
