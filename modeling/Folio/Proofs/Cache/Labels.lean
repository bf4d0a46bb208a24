import Folio.Proofs.Cache.Operation

/-! # What lasts of an object

While a cache is at work its objects are asked whether they may leave, written back,
pinned and locked.  Pins, flags and locks are no part of their content, so a label of the
content that neither the question nor the hook changes (`Lasting`), such as an identity or
a name, stays with every instance whatever the cache does: **`retains_perform`**.
-/
namespace Folio.Cache

variable {σ α β : Type} {ℓ : α → β}

/-- What the label of an instance says. -/
def Workspace.label? (ℓ : α → β) (w : Workspace σ α) (h : Handle) : Option β :=
  (w.pool.get? h).map fun i => ℓ i.content

/-- Every instance has the label it had. -/
def Workspace.Retains (ℓ : α → β) (w w' : Workspace σ α) : Prop :=
  ∀ h b, w.label? ℓ h = some b → w'.label? ℓ h = some b

section
variable {w w₁ w' : Workspace σ α}

theorem Workspace.Retains.refl (w : Workspace σ α) : w.Retains ℓ w := fun _ _ h => h

theorem Workspace.Retains.trans (h : w.Retains ℓ w₁) (h' : w₁.Retains ℓ w') : w.Retains ℓ w' :=
  fun k b hb => h' k b (h k b hb)

/-- Changing one instance and not its label keeps the labels. -/
theorem Workspace.retains_of_pool {h : Handle} {f : Instance α → Instance α}
    (hpool : w'.pool = w.pool.modify h f)
    (hf : ∀ i, w.pool.get? h = some i → ℓ (f i).content = ℓ i.content) : w.Retains ℓ w' := by
  intro k b hb
  rw [label?, hpool, Pool.get?_modify]
  by_cases hk : h = k
  · subst hk
    obtain ⟨i, hi, rfl⟩ := Option.map_eq_some_iff.1 hb
    rw [if_pos rfl, hi]
    exact congrArg some (hf i hi)
  · rw [if_neg hk]
    exact hb

theorem Workspace.retains_modify (w : Workspace σ α) (h : Handle) {f : Instance α → Instance α}
    (hf : ∀ i, (f i).content = i.content) : w.Retains ℓ (w.modify h f) :=
  Workspace.retains_of_pool rfl fun i _ => congrArg ℓ (hf i)

end

variable [Cacheable α]

/-- **A label that lasts**: an object keeps it while it is asked whether it may go and while it is
written back. -/
structure Lasting (ℓ : α → β) (hook : Option (FlushHook σ α)) : Prop where
  asked : ∀ i : Instance α, ℓ (Cacheable.allowUnload i).2.content = ℓ i.content
  flushed : ∀ f, hook = some f → ∀ (i : Instance α) (s : σ), ℓ (f i s).2.1.content = ℓ i.content

/-! ## Asking and writing back -/

section Asking
variable {hook : Option (FlushHook σ α)} {c : Cache σ α} {w w' : Workspace σ α} {h : Handle}
  {id : ObjectId} {exclude : Option ObjectId}

theorem Lasting.flushBeforeUnload (hl : Lasting ℓ hook) (i : Instance α) (s : σ) :
    ℓ (flushBeforeUnload hook i s).2.1.content = ℓ i.content := by
  unfold Cache.flushBeforeUnload
  split
  · cases hook with
    | none => rfl
    | some f =>
      have hf := hl.flushed f rfl (i.setDirty false) s
      rcases hrun : f (i.setDirty false) s with ⟨_ | _, m, s'⟩ <;>
        · rw [hrun] at hf
          simp only [hrun]
          exact hf
  · rfl

theorem Lasting.flushReplaced (hl : Lasting ℓ hook) (i : Instance α) (s : σ) :
    ℓ (flushReplaced hook i s).1.content = ℓ i.content := by
  unfold Cache.flushReplaced
  split
  · rename_i f _
    have hf := hl.flushed f rfl (i.setDirty false) s
    rcases hrun : f (i.setDirty false) s with ⟨_ | _, m, s'⟩ <;>
      · rw [hrun] at hf
        exact hf
  · rfl

theorem Lasting.mayUnload (hl : Lasting ℓ hook) (i : Instance α) (s : σ) :
    ℓ (mayUnload hook i s).2.1.content = ℓ i.content := by
  unfold Cache.mayUnload
  split
  · rfl
  cases i.lock.tryAcquire .read with
  | none => rfl
  | some held =>
    -- locks are no part of the content, so only the question and the flush count
    have hasked := hl.asked (i.setLock held)
    simp only
    split
    · exact (hl.flushBeforeUnload _ s).trans hasked
    · exact hasked

theorem retains_tryUnload (hl : Lasting ℓ c.flushHook) (h : Handle) (w : Workspace σ α) :
    w.Retains ℓ (c.tryUnload h w).2 := by
  unfold tryUnload
  cases hi : w.pool.get? h with
  | none => exact .refl w
  | some i =>
    refine Workspace.retains_of_pool rfl fun j hj => ?_
    obtain rfl : i = j := Option.some.inj (hi.symm.trans hj)
    exact hl.mayUnload i w.outside

theorem Refused.retains (hl : Lasting ℓ c.flushHook) (hr : Refused c w w') : w.Retains ℓ w' := by
  induction hr with
  | nobody => exact .refl w
  | @next w₁ w₂ id h _ _ refusal ih =>
    have htry := retains_tryUnload hl h w₁
    rw [refusal] at htry
    exact ih.trans htry

theorem Finds.retains (hl : Lasting ℓ c.flushHook) (hf : Finds c exclude w id h w') :
    w.Retains ℓ w' := by
  obtain ⟨w₀, hr, htry⟩ := hf.agreed
  have hlast := retains_tryUnload hl h w₀
  rw [htry] at hlast
  exact (hr.retains hl).trans hlast

theorem retains_replace (hl : Lasting ℓ c.flushHook) (id : ObjectId) (previous h : Handle)
    (w : Workspace σ α) : w.Retains ℓ (c.replace id previous h w).workspace := by
  unfold Cache.replace
  split
  · rename_i i hi
    dsimp only
    split
    · exact .refl w
    · refine Workspace.retains_of_pool (h := previous) rfl fun j hj => ?_
      obtain rfl : i = j := Option.some.inj (hi.symm.trans hj)
      exact hl.flushReplaced i w.outside
  · exact .refl w

end Asking

/-! ## Operations -/

section Operations
variable {c : Cache σ α}

theorem retains_evict (hl : Lasting ℓ c.flushHook) (w : Workspace σ α) :
    w.Retains ℓ (c.evict w).workspace :=
  evictionPass_induction (P := fun _ w' => w.Retains ℓ w') (fun _ hr => hr.retains hl)
    fun _ _ _ _ hf => hf.retains hl

theorem retains_evictUpTo (hl : Lasting ℓ c.flushHook) (w : Workspace σ α) (count : Nat) :
    w.Retains ℓ (c.evictUpTo w count).workspace :=
  (evictUpTo_induction (P := fun c' w' => w.Retains ℓ w' ∧ Lasting ℓ c'.flushHook)
    (fun _ _ _ hP hr => ⟨hP.1.trans (hr.retains hP.2), hP.2⟩)
    (fun _ _ _ _ _ hP _ hf => ⟨hP.1.trans (hf.retains hP.2), hP.2⟩) ⟨.refl w, hl⟩ count).1

theorem retains_makeRoom (hl : Lasting ℓ c.flushHook) (id : ObjectId) (h : Handle)
    (w : Workspace σ α) : w.Retains ℓ (c.makeRoom id h w).workspace := by
  rcases makeRoom_cases c id h w with
    ⟨id', h', w', -, hf, hroom | ⟨n, b, -, -, hroom⟩⟩ | ⟨w', hr, ⟨n, b, -, -, hroom⟩ | hroom⟩
  all_goals rw [hroom]
  -- growing changes the budget only
  · exact hf.retains hl
  · have hlast : w.Retains ℓ w' := hf.retains hl
    exact hlast
  · have hlast : w.Retains ℓ w' := hr.retains hl
    exact hlast
  · exact hr.retains hl

theorem retains_add (hl : Lasting ℓ c.flushHook) (h : Handle) (refCount : UInt32)
    (w : Workspace σ α) : w.Retains ℓ (c.add h refCount w).workspace := by
  rcases add_cases c h refCount w with ⟨-, hadd⟩ | ⟨id, w', -, hid, rfl, hadd⟩
  · rw [hadd]
    exact .refl w
  have hcount : w.Retains ℓ (w.modify h ({ · with refCount })) := w.retains_modify h fun _ => rfl
  rcases hadd with ⟨previous, -, hadd⟩ | ⟨-, ⟨-, hadd⟩ | ⟨-, hadd⟩⟩
  all_goals rw [hadd]
  · exact hcount.trans (retains_replace hl id previous h _)
  · exact hcount
  · exact hcount.trans (retains_makeRoom (c := c.entered id h) hl id h _)

theorem retains_resize (hl : Lasting ℓ c.flushHook) (capacity : Nat) (w : Workspace σ α) :
    w.Retains ℓ (c.resize capacity w).workspace := by
  rcases resize_cases c capacity w with
    ⟨e, hresize⟩ | ⟨b, -, hresize⟩ | ⟨_, b, -, rfl, -, -, hworkspace⟩
  · rw [hresize]
    exact .refl w
  · rw [hresize]
    exact .refl w
  · rw [hworkspace]
    exact retains_evictUpTo hl w (c.size - capacity)

/-- **No operation changes a label that lasts.** -/
theorem retains_perform (hl : Lasting ℓ c.flushHook) (w : Workspace σ α) (op : Operation) :
    w.Retains ℓ (c.perform w op).2 := by
  cases op with
  | get id => exact .refl w
  | add h refCount => exact retains_add hl h refCount w
  | remove id => exact .refl w
  | evict => exact retains_evict hl w
  | resize capacity => exact retains_resize hl capacity w
  | setOperational operational => exact .refl w

end Operations

end Folio.Cache
