import Folio.Proofs.Cache.Adding

/-! # What changing the capacity comes to

A higher capacity is granted as a whole or refused by the budget.  For a lower one, objects are
evicted one after another while there are too many (`LetsGo`), and that ends for one of two
reasons: few enough are left, or a pass makes no progress and the capacity stops at what is left.
**`resize_outcomes`** says what report, cache and budget tell in each case, and that they agree.

The evictions of a change are counted beforehand.  No pass takes out more than one object, so
counting them comes to the same as looking at the size before each pass (`letsGo_evictUpTo`).
-/
namespace Folio

open Cache (Cacheable FlushHook Handle Result Workspace)

namespace Cache

variable {σ α : Type}

/-! ## The budget -/

section Budget
variable {b b' : Budget} {name : String} {old n desired : Nat}

/-- **The share goes with the capacity**, and the other shares stay. -/
theorem Budget.Moves.share? (hmoves : b.Moves name old n b') (hshare : b.share? name = some old) :
    b'.share? name = some n ∧ ∀ other, other ≠ name → b'.share? other = b.share? other := by
  unfold Budget.share? at hshare ⊢
  cases hmoves with
  | kept => exact ⟨hshare, fun _ _ => rfl⟩
  | raised room =>
    refine ⟨?_, fun other hne => ?_⟩
    · rw [Budget.setShare, Table.get?_insert, if_pos rfl]
    · rw [Budget.setShare, Table.get?_insert, if_neg hne]
  | lowered hle =>
    refine ⟨?_, fun other hne => ?_⟩
    · rw [Budget.release, Table.get?_modify, if_pos rfl, hshare, Option.map_some, Nat.min_eq_left hle]
    · rw [Budget.release, Table.get?_modify, if_neg hne]

/-- A reservation is refused exactly if what can be had is less than what is wanted. -/
theorem Budget.reserve_cases (b : Budget) (name : String) {current desired : Nat}
    (hle : current ≤ desired) :
    (b.available name current < desired - current ∧
      b.reserve name current desired =
        .error (.budgetExceeded (desired - current) (b.available name current))) ∨
    (desired - current ≤ b.available name current ∧ ∃ b', b.reserve name current desired = .ok b') := by
  unfold Budget.reserve
  dsimp only
  by_cases hsame : desired ≤ current
  · exact Or.inr ⟨by omega, b, if_pos hsame⟩
  rw [if_neg hsame]
  by_cases hshort : b.available name current < desired - current
  · exact Or.inl ⟨hshort, if_pos hshort⟩
  · exact Or.inr ⟨Nat.le_of_not_lt hshort, _, if_neg hshort⟩

end Budget

/-! ## Upwards -/

/-- **A higher capacity** is refused by the budget, or the cache has it. -/
theorem enlarge_outcomes (c : Cache σ α) {n : Nat} (hle : c.capacity ≤ n) (w : Workspace σ α) :
    (c.attached = true ∧ w.budget.available c.name c.capacity < n - c.capacity ∧
      c.enlarge n w = .error
        (.budgetExceeded (n - c.capacity) (w.budget.available c.name c.capacity))) ∨
    ((c.attached = true → n - c.capacity ≤ w.budget.available c.name c.capacity) ∧
      ∃ b, c.enlarge n w = .ok (c.enlarged n, w.setBudget b)) := by
  unfold enlarge
  by_cases hattached : c.attached = true
  · simp only [if_pos hattached]
    rcases w.budget.reserve_cases c.name hle with ⟨hshort, hreserve⟩ | ⟨henough, b, hreserve⟩
    · exact Or.inl ⟨hattached, hshort, by rw [hreserve]; rfl⟩
    · exact Or.inr ⟨fun _ => henough, b, by rw [hreserve]; rfl⟩
  · simp only [if_neg hattached]
    exact Or.inr ⟨fun hc => absurd hc hattached, w.budget, rfl⟩

/-! ## Downwards -/

variable [Cacheable α]

/-- **Evictions while there are more than `n` objects**, one after another, until a pass makes no
progress.  The passes are listed, and the last cache and workspace are those after them. -/
inductive LetsGo (n : Nat) : Cache σ α → Workspace σ α → List (Result σ α (Option ObjectId)) →
    Cache σ α → Workspace σ α → Prop
  | enough {c : Cache σ α} {w : Workspace σ α} (few : c.size ≤ n) : LetsGo n c w [] c w
  | stuck {c : Cache σ α} {w : Workspace σ α} (many : n < c.size)
      (nobody : (c.evictionPass none w).value = none) :
      LetsGo n c w [c.evictionPass none w] (c.evictionPass none w).cache
        (c.evictionPass none w).workspace
  | evicts {c c' : Cache σ α} {w w' : Workspace σ α}
      {others : List (Result σ α (Option ObjectId))} {id : ObjectId} (many : n < c.size)
      (somebody : (c.evictionPass none w).value = some id)
      (rest : LetsGo n (c.evictionPass none w).cache (c.evictionPass none w).workspace others
        c' w') :
      LetsGo n c w (c.evictionPass none w :: others) c' w'

section Lowering
variable {c c' : Cache σ α} {w w' : Workspace σ α} {passes : List (Result σ α (Option ObjectId))}
  {n : Nat}

/-- A pass without progress leaves the cache as it is. -/
theorem evictionPass_of_none (hvalue : (c.evictionPass none w).value = none) :
    (c.evictionPass none w).cache = c ∧ (c.evictionPass none w).left = [] := by
  rcases evictionPass_cases c none w with ⟨w', -, hpass⟩ | ⟨id, h, w', -, -, hpass⟩
  · rw [hpass]
    exact ⟨rfl, rfl⟩
  · rw [hpass] at hvalue
    cases hvalue

/-- A pass takes out one object at a time. -/
theorem evictionPass_of_some {id : ObjectId} (hvalue : (c.evictionPass none w).value = some id) :
    (c.evictionPass none w).cache.size + 1 = c.size ∧ (c.evictionPass none w).left.length = 1 := by
  rcases evictionPass_cases c none w with ⟨w', -, hpass⟩ | ⟨id', h, w', -, hf, hpass⟩
  · rw [hpass] at hvalue
    cases hvalue
  · rw [hpass]
    exact ⟨size_evicted hf.entry, rfl⟩

/-- **Counting the evictions beforehand** is looking at the size before each of them. -/
theorem letsGo_evictUpTo (c : Cache σ α) (w : Workspace σ α) (n : Nat) :
    LetsGo n c w (c.passesUpTo w (c.size - n)) (c.evictUpTo w (c.size - n)).cache
      (c.evictUpTo w (c.size - n)).workspace := by
  induction hcount : c.size - n generalizing c w with
  | zero => exact .enough (by omega)
  | succ count ih =>
    have hmany : n < c.size := by omega
    unfold passesUpTo evictUpTo
    dsimp only
    cases hvalue : (c.evictionPass none w).value with
    | none => exact .stuck hmany hvalue
    | some id =>
      obtain ⟨hsize, -⟩ := evictionPass_of_some hvalue
      exact .evicts hmany hvalue (ih _ _ (by omega))

/-- Whoever was counted has left. -/
theorem value_evictUpTo (c : Cache σ α) (w : Workspace σ α) (count : Nat) :
    (c.evictUpTo w count).value = (c.evictUpTo w count).left.length ∧
      (c.evictUpTo w count).cache.size + (c.evictUpTo w count).value = c.size := by
  induction count generalizing c w with
  | zero => exact ⟨rfl, rfl⟩
  | succ count ih =>
    obtain ⟨hcounted, hsum⟩ := ih (c.evictionPass none w).cache (c.evictionPass none w).workspace
    unfold evictUpTo
    dsimp only
    cases hvalue : (c.evictionPass none w).value with
    | none => exact ⟨rfl, congrArg Cache.size (evictionPass_of_none hvalue).1⟩
    | some id =>
      obtain ⟨hsize, hone⟩ := evictionPass_of_some hvalue
      dsimp only
      rw [List.length_append, hone, ← hcounted]
      omega

/-- At least `n` objects are left, if there were so many. -/
theorem LetsGo.size_ge (h : LetsGo n c w passes c' w') : min c.size n ≤ c'.size := by
  induction h with
  | enough few => exact Nat.min_le_left ..
  | stuck many nobody =>
    rw [(evictionPass_of_none nobody).1]
    exact Nat.min_le_left ..
  | evicts many somebody rest ih =>
    obtain ⟨hsize, -⟩ := evictionPass_of_some somebody
    omega

/-- **Too many are left exactly if the last pass made no progress.** -/
theorem LetsGo.stuck_iff (h : LetsGo n c w passes c' w') :
    n < c'.size ↔ ∃ pass, passes.getLast? = some pass ∧ pass.value = none := by
  induction h with
  | enough few => simp [few]
  | stuck many nobody =>
    rw [(evictionPass_of_none nobody).1]
    exact ⟨fun _ => ⟨_, rfl, nobody⟩, fun _ => many⟩
  | @evicts _ _ _ _ others _ many somebody rest ih =>
    rw [ih]
    cases others with
    | nil => simp [somebody]
    | cons pass others => rw [List.getLast?_cons_cons]

/-- **Those who stay keep their order.** -/
theorem LetsGo.ids_sublist (h : LetsGo n c w passes c' w') (hs : Sound c) :
    c'.ids.Sublist c.ids := by
  have honce {c : Cache σ α} (hs : Sound c) (w : Workspace σ α) :
      (c.evictionPass none w).cache.ids.Sublist c.ids := by
    obtain ⟨-, hids, -⟩ := hs.evictionPass none w
    rw [hids]
    cases (c.evictionPass none w).value with
    | none => exact List.Sublist.refl _
    | some id => exact List.erase_sublist
  induction h with
  | enough few => exact List.Sublist.refl _
  | stuck many nobody => exact honce hs _
  | evicts many somebody rest ih => exact (ih (hs.evict _).toSound).trans (honce hs _)

/-- **What lowering the capacity to `n` comes to.** -/
structure Lowers (c : Cache σ α) (w : Workspace σ α) (n : Nat) : Prop where
  /-- Objects are evicted one after another while there are more than `n`, and the capacity is set
  when that has ended. -/
  letsGo : ∃ c' w', LetsGo n c w (c.passes w (.resize n)) c' w' ∧
    (c.resize n w).cache = c'.setCapacity (max n c'.size) ∧
    (c.resize n w).workspace.pool = w'.pool ∧ (c.resize n w).workspace.outside = w'.outside
  /-- The report tells of the cache as it is now. -/
  report : (c.resize n w).value = .ok
    { requested := n
      capacity := (c.resize n w).cache.capacity
      size := (c.resize n w).cache.size
      evicted := c.size - (c.resize n w).cache.size }
  capacity_eq : (c.resize n w).cache.capacity = max n (c.resize n w).cache.size
  size_ge : min c.size n ≤ (c.resize n w).cache.size
  size_eq : (c.resize n w).cache.size + (c.resize n w).left.length = c.size
  /-- The capacity is higher than was asked for exactly if the last pass made no progress. -/
  stuck_iff : n < (c.resize n w).cache.capacity ↔
    ∃ pass, (c.passes w (.resize n)).getLast? = some pass ∧ pass.value = none
  /-- Those who stay keep their order, and those who leave are those whom the passes took out. -/
  ids_sublist : (c.resize n w).cache.ids.Sublist c.ids
  departs : Departs c (c.resize n w).left (c.resize n w).cache
  left_eq : (c.resize n w).left = (c.passes w (.resize n)).flatMap (·.left)

theorem Sound.lowers (hs : Sound c) (w : Workspace σ α) (hlt : n < c.capacity) :
    c.Lowers w n := by
  have hgo := letsGo_evictUpTo c w n
  obtain ⟨hcount, hsize⟩ := value_evictUpTo c w (c.size - n)
  have hpasses : c.passes w (.resize n) = c.passesUpTo w (c.size - n) :=
    if_neg (Nat.not_le.2 hlt)
  have hresize : c.resize n w =
      { c.shrink n w with value := .ok (c.shrink n w).value } := if_neg (Nat.not_le.2 hlt)
  have hleft : (c.resize n w).left = (c.evictUpTo w (c.size - n)).left := by
    rw [hresize]
    rfl
  have hcache : (c.resize n w).cache = (c.evictUpTo w (c.size - n)).cache.setCapacity
      (max n (c.evictUpTo w (c.size - n)).cache.size) := by
    rw [hresize]
    rfl
  have hnew : (c.resize n w).cache.size = (c.evictUpTo w (c.size - n)).cache.size := by
    rw [hcache]
    rfl
  have hcapacity : (c.resize n w).cache.capacity = max n (c.resize n w).cache.size := by
    rw [hnew, hcache]
    rfl
  refine ⟨⟨_, _, hpasses ▸ hgo, hcache, ?_, ?_⟩, ?_, hcapacity, ?_, ?_, ?_, ?_,
    departs_resize c n w, ?_⟩
  · rw [hresize]
    simp only [shrink]
    split <;> rfl
  · rw [hresize]
    simp only [shrink]
    split <;> rfl
  · have hevicted : (c.evictUpTo w (c.size - n)).value = c.size - (c.resize n w).cache.size := by
      rw [hnew]
      omega
    rw [← hevicted, hcapacity, hnew, hresize]
    rfl
  · rw [hnew]
    exact hgo.size_ge
  · rw [hnew, hleft, ← hcount]
    exact hsize
  · rw [hcapacity, hpasses, hnew, ← hgo.stuck_iff]
    omega
  · rw [hcache]
    exact hgo.ids_sublist hs
  · rw [hleft, hpasses]
    exact left_evictUpTo c w _

end Lowering

/-! ## Changing the capacity -/

/-- **What changing the capacity to `n` comes to.** -/
structure Resizes (c : Cache σ α) (w : Workspace σ α) (n : Nat) : Prop where
  /-- Upwards, the budget refuses and nothing changes; or the capacity is set and all objects stay
  in their order. -/
  raises : c.capacity ≤ n →
    (c.attached = true ∧ w.budget.available c.name c.capacity < n - c.capacity ∧
      c.resize n w =
        { value := .error
            (.budgetExceeded (n - c.capacity) (w.budget.available c.name c.capacity))
          cache := c
          workspace := w }) ∨
    ((c.attached = true → n - c.capacity ≤ w.budget.available c.name c.capacity) ∧
      (c.resize n w).value =
        .ok { requested := n, capacity := n, size := c.size, evicted := 0 } ∧
      (c.resize n w).left = [] ∧ (c.resize n w).cache.capacity = n ∧
      (c.resize n w).cache.ids = c.ids ∧ (c.resize n w).cache.entries = c.entries ∧
      (c.resize n w).workspace.pool = w.pool ∧ (c.resize n w).workspace.outside = w.outside)
  /-- Downwards, objects leave. -/
  lowers : n < c.capacity → c.Lowers w n
  /-- The budget knows of an attached cache what it knew before, if that was its capacity: its
  capacity.  It is of no concern to the shares of others. -/
  share : c.attached = true → w.budget.share? c.name = some c.capacity →
    (c.resize n w).workspace.budget.share? c.name = some (c.resize n w).cache.capacity ∧
    ∀ other, other ≠ c.name →
      (c.resize n w).workspace.budget.share? other = w.budget.share? other

theorem Tidy.resizes {c : Cache σ α} (ht : Tidy c) (w : Workspace σ α) (n : Nat) :
    c.Resizes w n := by
  refine ⟨fun hle => ?_, ht.toSound.lowers w, fun hattached hshare =>
    ((settled_resize ht n w).moves hattached hshare).share? hshare⟩
  rcases c.enlarge_outcomes hle w with ⟨hattached, hshort, henlarge⟩ | ⟨henough, b, henlarge⟩
  · have hresize : c.resize n w =
        { value := .error
            (.budgetExceeded (n - c.capacity) (w.budget.available c.name c.capacity))
          cache := c
          workspace := w } := by
      rw [Cache.resize, if_pos hle, henlarge]
    exact Or.inl ⟨hattached, hshort, hresize⟩
  · have hresize : c.resize n w =
        { value := .ok { requested := n, capacity := n, size := c.size, evicted := 0 }
          cache := c.enlarged n
          workspace := w.setBudget b } := by
      rw [Cache.resize, if_pos hle, henlarge]
    rw [hresize]
    exact Or.inr ⟨henough, rfl, rfl, rfl, rfl, rfl, rfl, rfl⟩

end Cache

/-- **What changing the capacity of a cache comes to**, in every state that it goes through, with
names or without.  Names make no difference to it; and while nobody leaves, as when the change is
refused, the index stays as it was. -/
theorem Cache.resize_outcomes {σ α : Type} [Cacheable α] {settings : Cache.Settings}
    {hook : Option (FlushHook σ α)} (n : Nat) :
    (∀ (c : Cache σ α) (w : Workspace σ α), Cache.Run settings hook c w → c.Resizes w n) ∧
    ∀ (rule : NamedCache σ α → Workspace σ α → NamedCache.Operation → Prop) (c : NamedCache σ α)
      (w : Workspace σ α), NamedCache.Run settings hook rule c w →
      c.base.Resizes w n ∧ (c.resize n w).value = (c.base.resize n w).value ∧
        (c.resize n w).cache.base = (c.base.resize n w).cache ∧
        (c.resize n w).workspace = (c.base.resize n w).workspace ∧
        ((c.base.resize n w).left = [] → (c.resize n w).cache.names = c.names) ∧
        ∀ e, (c.resize n w).value = .error e →
          (c.resize n w).cache = c ∧ (c.resize n w).workspace = w := by
  refine ⟨fun c w run => run.bounds.1.resizes w n, fun rule c w run => ?_⟩
  have hresizes := run.tidy.resizes w n
  have hnames (hleft : (c.base.resize n w).left = []) : (c.resize n w).cache.names = c.names := by
    unfold NamedCache.resize NamedCache.followUp
    rw [hleft]
    rfl
  refine ⟨hresizes, rfl, rfl, rfl, hnames, fun e herror => ?_⟩
  -- an error comes from the budget only, and then nothing was done
  have herror' : (c.base.resize n w).value = .error e := herror
  rcases Nat.lt_or_ge n c.base.capacity with hlt | hle
  · rw [(hresizes.lowers hlt).report] at herror'
    cases herror'
  · rcases hresizes.raises hle with ⟨-, -, hresize⟩ | ⟨-, hvalue, -⟩
    · unfold NamedCache.resize NamedCache.followUp
      rw [hresize]
      exact ⟨rfl, rfl⟩
    · rw [hvalue] at herror'
      cases herror'

/-- Three collections, and a budget that the cache for them uses up. -/
def Cache.rented : Cache Store Record × Workspace Store Record :=
  let w := Cache.threeCollections.setBudget (Cache.Budget.setShare { total := 64 } "collections" 64)
  let c : Cache Store Record :=
    { Cache.newHooked "collections" {} (some Store.flushHook) with attached := true }
  let s := c.perform w (.add 0 1)
  let s := s.1.perform s.2 (.add 1 0)
  s.1.perform s.2 (.add 2 0)

/-- The same cache with names. -/
def NamedCache.rented : NamedCache Store Record × Workspace Store Record :=
  let w := Cache.threeCollections.setBudget (Cache.Budget.setShare { total := 64 } "collections" 64)
  let c : NamedCache Store Record :=
    { base := { Cache.newHooked "collections" {} (some Store.flushHook) with attached := true } }
  c.perform w (.add 2 0)

/-- A pinned and a locked collection keep the capacity above its target, and the budget is told so;
a higher capacity than the budget has is refused. -/
theorem Cache.resize_outcomes_rented :
    (Cache.rented.1.Resizes Cache.rented.2 1 ∧
      (Cache.rented.1.resize 1 Cache.rented.2).value =
        .ok { requested := 1, capacity := 2, size := 2, evicted := 1 } ∧
      (Cache.rented.1.resize 1 Cache.rented.2).cache.ids = [7, 8] ∧
      (Cache.rented.1.resize 1 Cache.rented.2).workspace.budget.share? "collections" = some 2) ∧
    NamedCache.rented.1.base.Resizes NamedCache.rented.2 65 ∧
      (NamedCache.rented.1.resize 65 NamedCache.rented.2).value = .error (.budgetExceeded 1 0) ∧
      (NamedCache.rented.1.resize 65 NamedCache.rented.2).cache = NamedCache.rented.1 := by
  have start : Cache.Run {} (some Store.flushHook) _
      (Cache.threeCollections.setBudget { total := 64 }) := .new "collections" _
  have run : Cache.Run {} (some Store.flushHook) Cache.rented.1 Cache.rented.2 :=
    (((start.attach rfl).perform (.add 0 1)).perform (.add 1 0)).perform (.add 2 0)
  have startNamed : NamedCache.Run {} (some Store.flushHook) (fun _ _ _ => True) _
      (Cache.threeCollections.setBudget { total := 64 }) := .new "collections" _
  have runNamed : NamedCache.Run {} (some Store.flushHook) (fun _ _ _ => True)
      NamedCache.rented.1 NamedCache.rented.2 :=
    (startNamed.attach rfl).perform (.add 2 0) trivial
  have hlowered := (Cache.resize_outcomes 1).1 _ _ run
  obtain ⟨hrefused, -, -, -, -, hsame⟩ := (Cache.resize_outcomes 65).2 _ _ _ runNamed
  have hvalue : (NamedCache.rented.1.resize 65 NamedCache.rented.2).value =
      .error (.budgetExceeded 1 0) := rfl
  refine ⟨⟨hlowered, rfl, by decide, ?_⟩, hrefused, hvalue, (hsame _ hvalue).1⟩
  exact (hlowered.share rfl rfl).1.trans rfl

end Folio
