import Folio.Proofs.Cache.Flushes
import Folio.Proofs.Cache.Run

/-! # Who is evicted

An instance is `eligible` if it has no pins, nobody writes to it or waits to do so, it agrees to
leave, and it is clean or its flush succeeds and leaves it clean.  A pass asks one instance after
another and undoes what it did to those that may not leave, so as long as the answers are fixed
(`Steady`) it takes out the first eligible one in the order of use, and whether an instance is
eligible can be told before the pass begins: **`evicts_first_eligible`**.

That answers are fixed means that they depend on labels of the content and of what is outside
which asking and writing back leave alone.  Instances with labels for their contents are compared
as such (`Instance.map`), and so are workspaces (`Workspace.view`).
-/
namespace Folio

namespace Cache

variable {σ α β γ : Type}

/-! ## Labels -/

/-- The instance with a label for its content. -/
def Instance.map (ℓ : α → β) (i : Instance α) : Instance β where
  content := ℓ i.content
  refCount := i.refCount
  dirty := i.dirty
  lock := i.lock

/-- The instance under one more read hold. -/
def Instance.hold (i : Instance α) : Instance α := i.setLock (i.lock.grant .read)

/-- The instance after a read hold was given back. -/
def Instance.unhold (i : Instance α) : Instance α := i.setLock (i.lock.releaseIfHeld .read)

@[simp] theorem Instance.unhold_hold (i : Instance α) : i.hold.unhold = i :=
  congrArg i.setLock i.lock.releaseIfHeld_grant_read

/-- The instance apart from its dirty flag. -/
def Instance.core (ℓ : α → β) (i : Instance α) : Instance β := (i.setDirty false).map ℓ

theorem Instance.core_of_map {ℓ : α → β} {i j : Instance α} (h : i.map ℓ = j.map ℓ) :
    i.core ℓ = j.core ℓ := congrArg (·.setDirty false) h

theorem Instance.map_of_core {ℓ : α → β} {i j : Instance α} (h : i.core ℓ = j.core ℓ)
    (hdirty : i.dirty = j.dirty) : i.map ℓ = j.map ℓ :=
  calc
    i.map ℓ = (i.core ℓ).setDirty i.dirty := rfl
    _ = (j.core ℓ).setDirty j.dirty := by rw [h, hdirty]
    _ = j.map ℓ := rfl

theorem Instance.map_unhold {ℓ : α → β} {i k : Instance α} (h : k.map ℓ = i.hold.map ℓ) :
    k.unhold.map ℓ = i.map ℓ :=
  (congrArg Instance.unhold h).trans (Instance.unhold_hold (i.map ℓ))

theorem Instance.core_unhold {ℓ : α → β} {i k : Instance α} (h : k.core ℓ = i.hold.core ℓ) :
    k.unhold.core ℓ = i.core ℓ :=
  (congrArg Instance.unhold h).trans (Instance.unhold_hold (i.core ℓ))

/-- What there is to be seen of a workspace: its instances with labels for their contents, and a
label of what is outside. -/
def Workspace.view (ℓ : α → β) (κ : σ → γ) (w : Workspace σ α) :
    (Handle → Option (Instance β)) × γ :=
  (fun h => (w.pool.get? h).map (·.map ℓ), κ w.outside)

/-- The lock and the pins of an instance. -/
def Workspace.holds (w : Workspace σ α) (h : Handle) : Option (Lock × UInt32) :=
  (w.pool.get? h).map fun i => (i.lock, i.refCount)

/-! ## Who may leave -/

/-- The flush of an instance succeeds and leaves it clean. -/
def saves (f : FlushHook σ α) (i : Instance α) (s : σ) : Bool :=
  match f (i.setDirty false) s with
  | (.ok (), k, _) => !k.dirty
  | (.error _, _, _) => false

variable [Cacheable α]

/-- **Who may leave**: an instance without pins which nobody writes to or waits to write to, which
agrees to leave when it is asked under its read lock, and which is clean or can be saved. -/
def eligible (hook : Option (FlushHook σ α)) (i : Instance α) (s : σ) : Bool :=
  i.refCount == 0 && i.lock.admits .read && (Cacheable.allowUnload i.hold).1 &&
    (!i.dirty || hook.any (saves · i.hold s))

/-- **The answers are fixed.**  What an object answers when it is asked, and whether it can be saved,
depends on what `ℓ` and `κ` tell of its content and of what is outside, and on its pins, flag and
lock.  Neither asking nor writing back changes any of this, except that an object that is
written back may be marked dirty meanwhile. -/
structure Steady (ℓ : α → β) (κ : σ → γ) (hook : Option (FlushHook σ α)) : Prop where
  asked : ∀ i : Instance α, (Cacheable.allowUnload i).2.map ℓ = i.map ℓ
  allows : ∀ i j : Instance α, i.map ℓ = j.map ℓ →
    (Cacheable.allowUnload i).1 = (Cacheable.allowUnload j).1
  flushed : ∀ f, hook = some f → ∀ i s,
    (f i s).2.1.core ℓ = i.core ℓ ∧ κ (f i s).2.2 = κ s
  saved : ∀ f, hook = some f → ∀ i j s t, i.map ℓ = j.map ℓ → κ s = κ t →
    saves f i s = saves f j t

section Asking
variable {ℓ : α → β} {κ : σ → γ} {hook : Option (FlushHook σ α)}

omit [Cacheable α] in
theorem flushBeforeUnload_fst (hook : Option (FlushHook σ α)) (i : Instance α) (s : σ) :
    (flushBeforeUnload hook i s).1 = (!i.dirty || hook.any (saves · i s)) := by
  unfold flushBeforeUnload
  cases hdirty : i.dirty with
  | false => rfl
  | true =>
    cases hook with
    | none => rfl
    | some f =>
      unfold saves
      rcases hf : f (i.setDirty false) s with ⟨_ | _, k, s'⟩ <;> simp [hf]

theorem Steady.flushBeforeUnload (st : Steady ℓ κ hook) (i : Instance α) (s : σ) :
    (flushBeforeUnload hook i s).2.1.core ℓ = i.core ℓ ∧
      κ (Cache.flushBeforeUnload hook i s).2.2 = κ s := by
  unfold Cache.flushBeforeUnload
  split
  · cases hook with
    | none => exact ⟨rfl, rfl⟩
    | some f =>
      have hf := st.flushed f rfl (i.setDirty false) s
      rcases hrun : f (i.setDirty false) s with ⟨_ | _, k, s'⟩ <;>
        · rw [hrun] at hf
          simp only [hrun]
          exact hf
  · exact ⟨rfl, rfl⟩

theorem Steady.any_saves (st : Steady ℓ κ hook) {i j : Instance α} {s t : σ}
    (hij : i.map ℓ = j.map ℓ) (hst : κ s = κ t) :
    hook.any (Cache.saves · i s) = hook.any (Cache.saves · j t) := by
  cases hook with
  | none => rfl
  | some f => exact st.saved f rfl i j s t hij hst

/-- Who is eligible can be told from the labels. -/
theorem Steady.eligible_congr (st : Steady ℓ κ hook) {i j : Instance α} {s t : σ}
    (hij : i.map ℓ = j.map ℓ) (hst : κ s = κ t) : eligible hook i s = eligible hook j t := by
  have hhold : i.hold.map ℓ = j.hold.map ℓ := congrArg Instance.hold hij
  obtain ⟨-, hcount, hdirty, hlock⟩ := Instance.mk.inj hij
  unfold eligible
  rw [hcount, hlock, hdirty, st.any_saves hhold hst, st.allows _ _ hhold]

/-- What becomes of an instance without pins under the read lock. -/
def askHeld (hook : Option (FlushHook σ α)) (i : Instance α) (s : σ) : Bool × Instance α × σ :=
  let (allowed, j) := Cacheable.allowUnload i
  if allowed && j.refCount == 0 then Cache.flushBeforeUnload hook j s else (false, j, s)

theorem Steady.askHeld (st : Steady ℓ κ hook) {i : Instance α} (hpin : i.refCount = 0) (s : σ) :
    (askHeld hook i s).1 =
        ((Cacheable.allowUnload i).1 && (!i.dirty || hook.any (Cache.saves · i s))) ∧
      (Cache.askHeld hook i s).2.1.core ℓ = i.core ℓ ∧ κ (Cache.askHeld hook i s).2.2 = κ s ∧
      ((Cache.askHeld hook i s).1 = false → (Cache.askHeld hook i s).2.1.map ℓ = i.map ℓ) := by
  have hasked : (Cacheable.allowUnload i).2.map ℓ = i.map ℓ := st.asked i
  unfold Cache.askHeld
  rcases hallow : Cacheable.allowUnload i with ⟨_ | _, j⟩
  all_goals
    rw [hallow] at hasked
    dsimp only at hasked
  · exact ⟨rfl, Instance.core_of_map hasked, rfl, fun _ => hasked⟩
  obtain ⟨-, hcount, hdirty, -⟩ := Instance.mk.inj hasked
  have hstill : (j.refCount == 0) = true := beq_iff_eq.2 (hcount.trans hpin)
  obtain ⟨hcore, hout⟩ := st.flushBeforeUnload j s
  simp only [hstill, ite_true, Bool.true_and]
  rw [← hdirty, ← st.any_saves hasked (rfl : κ s = κ s), flushBeforeUnload_fst]
  refine ⟨rfl, hcore.trans (Instance.core_of_map hasked), hout, fun hno => ?_⟩
  -- there was something to be written, and there still is
  have hwas : j.dirty = true := by
    simp only [Bool.or_eq_false_iff, Bool.not_eq_false'] at hno
    exact hno.1
  have hanswer : (Cache.flushBeforeUnload hook j s).1 = false :=
    (flushBeforeUnload_fst hook j s).trans hno
  have his : (Cache.flushBeforeUnload hook j s).2.1.dirty = true :=
    dirty_of_flushBeforeUnload (Prod.ext hanswer rfl)
  exact (Instance.map_of_core hcore (his.trans hwas.symm)).trans hasked

theorem mayUnload_cases (hook : Option (FlushHook σ α)) (i : Instance α) (s : σ) :
    (eligible hook i s = false ∧ mayUnload hook i s = (false, i, s)) ∨
      (i.refCount = 0 ∧ i.lock.admits .read = true ∧
        mayUnload hook i s =
          ((askHeld hook i.hold s).1, (askHeld hook i.hold s).2.1.unhold,
            (askHeld hook i.hold s).2.2)) := by
  by_cases hpin : i.refCount = 0
  · cases hheld : i.lock.tryAcquire .read with
    | none =>
      have hadmits : i.lock.admits .read = false := by simpa [Lock.tryAcquire] using hheld
      exact Or.inl ⟨by simp [eligible, hadmits], by simp [mayUnload, hpin, hheld]⟩
    | some held =>
      obtain ⟨hfree, rfl⟩ := Lock.tryAcquire_read_iff.1 hheld
      refine Or.inr ⟨hpin, hfree, ?_⟩
      simp only [mayUnload, hpin, hheld]
      rfl
  · exact Or.inl ⟨by simp [eligible, hpin], if_pos hpin⟩

/-- **Asking an instance**: it may leave if it is eligible; it gets its lock and its pins back in any
case, and its flag too if it may not leave. -/
theorem Steady.mayUnload (st : Steady ℓ κ hook) (i : Instance α) (s : σ) :
    (mayUnload hook i s).1 = eligible hook i s ∧
      (Cache.mayUnload hook i s).2.1.core ℓ = i.core ℓ ∧ κ (Cache.mayUnload hook i s).2.2 = κ s ∧
      (eligible hook i s = false → (Cache.mayUnload hook i s).2.1.map ℓ = i.map ℓ) := by
  rcases mayUnload_cases hook i s with ⟨hno, hmay⟩ | ⟨hpin, hfree, hmay⟩
  · rw [hmay]
    exact ⟨hno.symm, rfl, rfl, fun _ => rfl⟩
  · obtain ⟨hanswer, hcore, hout, hsame⟩ := st.askHeld (i := i.hold) hpin s
    have heligible : eligible hook i s = (Cache.askHeld hook i.hold s).1 := by
      rw [hanswer]
      simp [eligible, hpin, hfree]
      rfl
    rw [hmay, heligible]
    exact ⟨rfl, Instance.core_unhold hcore, hout, fun hno => Instance.map_unhold (hsame hno)⟩

end Asking

/-! ## The first one -/

/-- The instance cached under an identity may leave, and is not the one that is kept. -/
def candidate (c : Cache σ α) (exclude : Option ObjectId) (w : Workspace σ α) (id : ObjectId) :
    Bool :=
  decide (exclude ≠ some id) && (c.entries.get? id).any fun h =>
    (w.pool.get? h).any (eligible c.flushHook · w.outside)

section Searching
variable {ℓ : α → β} {κ : σ → γ} {c : Cache σ α} {w w' : Workspace σ α} {h : Handle}
  {id : ObjectId} {exclude : Option ObjectId}

theorem Steady.any_eligible (st : Steady ℓ κ c.flushHook) (hview : w'.view ℓ κ = w.view ℓ κ)
    (h : Handle) :
    (w'.pool.get? h).any (eligible c.flushHook · w'.outside) =
      (w.pool.get? h).any (eligible c.flushHook · w.outside) := by
  obtain ⟨hpool, hout⟩ := Prod.mk.inj hview
  have hsame := congrFun hpool h
  cases hi : w.pool.get? h with
  | none =>
    simp only [hi, Option.map_none, Option.map_eq_none_iff] at hsame
    rw [hsame]
    rfl
  | some i =>
    simp only [hi, Option.map_some, Option.map_eq_some_iff] at hsame
    obtain ⟨j, hj, hmap⟩ := hsame
    rw [hj]
    exact st.eligible_congr hmap hout

theorem Steady.tryUnload (st : Steady ℓ κ c.flushHook) (h : Handle) (w : Workspace σ α) :
    (c.tryUnload h w).1 = (w.pool.get? h).any (eligible c.flushHook · w.outside) ∧
      (c.tryUnload h w).2.holds = w.holds ∧
      ((c.tryUnload h w).1 = false → (c.tryUnload h w).2.view ℓ κ = w.view ℓ κ) := by
  unfold Cache.tryUnload
  cases hi : w.pool.get? h with
  | none => exact ⟨rfl, rfl, fun _ => rfl⟩
  | some i =>
    obtain ⟨hanswer, hcore, hout, hsame⟩ := st.mayUnload i w.outside
    refine ⟨hanswer, funext fun g => ?_, fun hno => Prod.ext (funext fun g => ?_) hout⟩
    · obtain ⟨-, hcount, -, hlock⟩ := Instance.mk.inj hcore
      simp only [Workspace.holds, Pool.get?_set_of_some hi]
      split
      · rename_i hg
        rw [← hg, hi]
        exact congrArg some (Prod.ext hlock hcount)
      · rfl
    · simp only [Workspace.view, Pool.get?_set_of_some hi]
      split
      · rename_i hg
        rw [← hg, hi]
        exact congrArg some (hsame (hanswer.symm.trans hno))
      · rfl

/-- **Who was asked in vain is as before.** -/
theorem Refused.view (st : Steady ℓ κ c.flushHook) (hr : Refused c w w') :
    w'.view ℓ κ = w.view ℓ κ := by
  induction hr with
  | nobody => rfl
  | @next w₁ w₂ id h _ _ refusal ih =>
    have htry := (st.tryUnload h w₁).2.2
    rw [refusal] at htry
    exact (htry rfl).trans ih

theorem Refused.holds (st : Steady ℓ κ c.flushHook) (hr : Refused c w w') :
    w'.holds = w.holds := by
  induction hr with
  | nobody => rfl
  | @next w₁ w₂ id h _ _ refusal ih =>
    have htry := (st.tryUnload h w₁).2.1
    rw [refusal] at htry
    exact htry.trans ih

theorem Finds.holds (st : Steady ℓ κ c.flushHook) (hf : Finds c exclude w id h w') :
    w'.holds = w.holds := by
  obtain ⟨w₀, hr, hagreed⟩ := hf.agreed
  have htry := (st.tryUnload h w₀).2.1
  rw [hagreed] at htry
  exact htry.trans (hr.holds st)

theorem Steady.candidate_congr (st : Steady ℓ κ c.flushHook) (hview : w'.view ℓ κ = w.view ℓ κ) :
    c.candidate exclude w' = c.candidate exclude w := by
  funext id
  unfold candidate
  cases c.entries.get? id with
  | none => rfl
  | some h => exact congrArg _ (st.any_eligible hview h)

/-- **A scan finds the first candidate**, as it was before anybody was asked. -/
theorem Steady.scan (st : Steady ℓ κ c.flushHook) (exclude : Option ObjectId)
    (ids : List ObjectId) (w : Workspace σ α) :
    (c.scan exclude ids w).1.map (·.1) = ids.find? (c.candidate exclude w) := by
  induction ids generalizing w with
  | nil => rfl
  | cons id ids ih =>
    unfold Cache.scan
    by_cases hex : exclude = some id
    · have hno : c.candidate exclude w id = false := by simp [candidate, hex]
      rw [if_pos hex, List.find?_cons_of_neg (by simp [hno])]
      exact ih w
    rw [if_neg hex]
    cases hget : c.entries.get? id with
    | none =>
      have hno : c.candidate exclude w id = false := by simp [candidate, hget]
      rw [List.find?_cons_of_neg (by simp [hno])]
      exact ih w
    | some h =>
      obtain ⟨hanswer, -, hsame⟩ := st.tryUnload h w
      have hcandidate : c.candidate exclude w id = (c.tryUnload h w).1 := by
        simp [candidate, hex, hget, hanswer]
      rcases htry : c.tryUnload h w with ⟨_ | _, w'⟩
      · rw [htry] at hcandidate hsame
        rw [List.find?_cons_of_neg (by simp [hcandidate])]
        simp only [htry]
        rw [ih w', st.candidate_congr (hsame rfl)]
      · rw [htry] at hcandidate
        rw [List.find?_cons_of_pos (by simp [hcandidate])]
        simp only [htry]
        rfl

/-- **What a pass takes out is the first candidate**: looking again finds nobody else. -/
theorem Steady.evictionPass (st : Steady ℓ κ c.flushHook) (exclude : Option ObjectId)
    (w : Workspace σ α) :
    (c.evictionPass exclude w).value = c.ids.find? (c.candidate exclude w) := by
  refine value_evictionPass (P := fun w' => w'.view ℓ κ = w.view ℓ κ)
    (fun w₁ w₂ hview hr => (hr.view st).trans hview) (fun w₁ hview => ?_) rfl
  rw [st.scan exclude c.ids w₁, st.candidate_congr hview]

/-- There is a candidate if somebody is eligible and not kept. -/
theorem Sound.exists_candidate_iff (hs : Sound c) :
    (∃ id ∈ c.ids, c.candidate exclude w id = true) ↔
      ∃ id h i, exclude ≠ some id ∧ c.entries.get? id = some h ∧ w.pool.get? h = some i ∧
        eligible c.flushHook i w.outside = true := by
  simp only [candidate, Bool.and_eq_true, decide_eq_true_eq, Option.any_eq_true]
  constructor
  · rintro ⟨id, -, hother, h, hget, i, hi, heligible⟩
    exact ⟨id, h, i, hother, hget, hi, heligible⟩
  · rintro ⟨id, h, i, hother, hget, hi, heligible⟩
    exact ⟨id, hs.mem_ids hget, hother, h, hget, i, hi, heligible⟩

omit [Cacheable α] in
theorem Sound.ids_evicted (hs : Sound c) (id : ObjectId) : (c.evicted id).ids = c.ids.erase id :=
  (hs.threads.unlink id).toList_eq

/-- **At most one instance leaves**, and the others stay in their order. -/
theorem Sound.evictionPass (hs : Sound c) (exclude : Option ObjectId) (w : Workspace σ α) :
    let pass := c.evictionPass exclude w
    pass.left = (pass.value.bind c.entries.get?).toList ∧
      pass.cache.ids = pass.value.elim c.ids c.ids.erase ∧
      pass.cache.entries = pass.value.elim c.entries c.entries.erase := by
  rcases evictionPass_cases c exclude w with ⟨w', -, hpass⟩ | ⟨id, h, w', -, hf, hpass⟩
  · rw [hpass]
    exact ⟨rfl, rfl, rfl⟩
  · rw [hpass]
    refine ⟨?_, hs.ids_evicted id, rfl⟩
    rw [Option.bind_some, hf.entry]
    rfl

theorem Steady.holds_evictionPass (st : Steady ℓ κ c.flushHook) (exclude : Option ObjectId)
    (w : Workspace σ α) : (c.evictionPass exclude w).workspace.holds = w.holds :=
  evictionPass_induction (P := fun _ w' => w'.holds = w.holds) (fun _ hr => hr.holds st)
    fun _ _ _ _ hf => hf.holds st

/-- A pass begins with a sound cache if the operation does. -/
theorem Sound.of_mem_starts (hs : Sound c) {op : Operation} {start : Start σ α}
    (hstart : start ∈ c.starts w op) : Sound start.cache :=
  starts_induction (fun _ w hc => (hc.evict w).toSound) hs (fun _ h hnew => hs.entered hnew h)
    hstart

end Searching

/-- **Evictions take out the first eligible instance.**  Where the answers are fixed, each pass of an
operation takes out the first candidate in the order of use, as matters stood when the pass
began; so it takes one out exactly if there is one.  That instance leaves and no other, the
identities keep their order, and every instance has the lock and the pins that it had.  Every
cache that its owner works with is sound (`Run.bounds`). -/
theorem evicts_first_eligible {ℓ : α → β} {κ : σ → γ} {c : Cache σ α}
    (st : Steady ℓ κ c.flushHook) (hs : Sound c) (w : Workspace σ α) (op : Operation) :
    ∀ start ∈ c.starts w op,
      start.pass.value =
        start.cache.ids.find? (start.cache.candidate start.exclude start.workspace) ∧
      (start.pass.value.isSome = true ↔ ∃ id h i, start.exclude ≠ some id ∧
        start.cache.entries.get? id = some h ∧ start.workspace.pool.get? h = some i ∧
        eligible c.flushHook i start.workspace.outside = true) ∧
      start.pass.left = (start.pass.value.bind start.cache.entries.get?).toList ∧
      start.pass.cache.ids = start.pass.value.elim start.cache.ids start.cache.ids.erase ∧
      start.pass.cache.entries =
        start.pass.value.elim start.cache.entries start.cache.entries.erase ∧
      start.pass.workspace.holds = start.workspace.holds := by
  intro start hstart
  have hsound := hs.of_mem_starts hstart
  have hhook := flushHook_of_mem_starts hstart
  rw [← hhook] at st ⊢
  have hvalue : start.pass.value =
      start.cache.ids.find? (start.cache.candidate start.exclude start.workspace) :=
    st.evictionPass start.exclude start.workspace
  obtain ⟨hleft, hids, hentries⟩ := hsound.evictionPass start.exclude start.workspace
  refine ⟨hvalue, ?_, hleft, hids, hentries, st.holds_evictionPass _ _⟩
  rw [hvalue, List.find?_isSome]
  exact hsound.exists_candidate_iff

/-! ## The third of three -/

/-- A store answers alike for all collections, by whether it may be written to. -/
theorem steady_flushHook :
    Steady (fun _ : Record => ()) Store.readOnly (some Store.flushHook) where
  asked _ := rfl
  allows i j hij := by
    obtain ⟨-, hcount, -, -⟩ := Instance.mk.inj hij
    exact congrArg (· == 0) hcount
  flushed := by
    rintro _ ⟨⟩ i s
    unfold Store.flushHook Store.write
    cases hreadOnly : s.readOnly <;> simp [hreadOnly]
  saved := by
    rintro _ ⟨⟩ i j s t - hst
    unfold saves Store.flushHook Store.write
    cases hreadOnly : s.readOnly <;> simp [hreadOnly, ← hst, Instance.setDirty]

/-- Three collections, one of them locked by a writer and another one dirty. -/
def threeCollections : Workspace Store Record where
  pool := ⟨#[{ content := { id := 7, name := "/db" } },
    { content := { id := 8, name := "/tmp" }, lock := { writer := true } },
    { content := { id := 9, name := "/new" }, dirty := true }]⟩
  outside := {}

/-- All three are cached, and the first one is pinned. -/
def occupied : Cache Store Record × Workspace Store Record :=
  let s := (newHooked "collections" {} (some Store.flushHook)).perform threeCollections (.add 0 1)
  let s := s.1.perform s.2 (.add 1 0)
  s.1.perform s.2 (.add 2 0)

/-- The dirty collection is evicted: the two that were used before it may not leave. -/
theorem evicts_first_eligible_occupied :
    Run {} (some Store.flushHook) occupied.1 occupied.2 ∧
    occupied.1.ids = [7, 8, 9] ∧ (occupied.1.evict occupied.2).value = some 9 ∧
    (occupied.1.evict occupied.2).cache.ids = [7, 8] := by
  have run : Run {} (some Store.flushHook) occupied.1 occupied.2 :=
    (((Run.new "collections" threeCollections).perform (.add 0 1)).perform (.add 1 0)).perform
      (.add 2 0)
  have hids : occupied.1.ids = [7, 8, 9] := by decide
  obtain ⟨hvalue, -, -, hleave, -⟩ := evicts_first_eligible (c := occupied.1) steady_flushHook
    run.bounds.1.toSound occupied.2 .evict _ (List.mem_singleton_self _)
  have hfirst : (occupied.1.evict occupied.2).value = some 9 := hvalue.trans (by decide)
  refine ⟨run, hids, hfirst, hleave.trans ?_⟩
  show (occupied.1.evict occupied.2).value.elim occupied.1.ids occupied.1.ids.erase = [7, 8]
  rw [hfirst, hids]
  decide

end Cache
end Folio
