import Folio.Proofs.Cache.Eviction

/-! # The operations of a cache, case by case

What its owner can ask of a cache is an `Operation`, and `perform` runs one.  The case
lemmas say what growing, making room, adding and shrinking can come to; proofs about
operations use them and open none of these functions again.  `passes` lists the
eviction passes that an operation runs, each with the workspace at its end, so that a
statement about evictions can speak of the moment at which an instance leaves.
-/
namespace Folio.Cache

variable {σ α : Type}

/-! ## Attaching -/

/-- Attaching a cache registers its capacity, and leaves its objects and instances alone. -/
theorem attach_eq {c c' : Cache σ α} {w w' : Workspace σ α} (h : c.attach w = .ok (c', w')) :
    ∃ b, c' = { c with attached := true } ∧ w' = w.setBudget b ∧
      w.budget.register c.name c.capacity = .ok b := by
  unfold Cache.attach at h
  cases hregister : w.budget.register c.name c.capacity with
  | error e =>
    rw [hregister] at h
    cases h
  | ok b =>
    rw [hregister] at h
    cases h
    exact ⟨b, rfl, rfl, rfl⟩

/-! ## Growing -/

/-- **Growing is refused, or it gains at least one place within the maximum.**  An attached cache
grows as the budget grants. -/
theorem grow_cases (c : Cache σ α) (w : Workspace σ α) :
    c.grow w = (false, c, w) ∨
      ∃ n b, c.capacity < n ∧ n ≤ c.settings.maxCapacity ∧
        (c.attached = true →
          w.budget.grow c.name c.capacity (c.settings.grown c.capacity) = some (n, b)) ∧
        (c.attached = false → b = w.budget) ∧
        c.grow w = (true, c.setCapacity n, w.setBudget b) := by
  have hmax : c.settings.grown c.capacity ≤ c.settings.maxCapacity := Nat.min_le_right ..
  unfold grow
  by_cases hle : c.settings.grown c.capacity ≤ c.capacity
  · exact Or.inl (if_pos hle)
  simp only [if_neg hle]
  cases hatt : c.attached with
  | false =>
    exact Or.inr ⟨_, w.budget, Nat.lt_of_not_le hle, hmax, by simp, fun _ => rfl, rfl⟩
  | true =>
    rw [if_pos rfl]
    cases hgrow : w.budget.grow c.name c.capacity (c.settings.grown c.capacity) with
    | none => exact Or.inl rfl
    | some granted =>
      obtain ⟨n, b⟩ := granted
      have hn : c.capacity < n ∧ n ≤ c.settings.grown c.capacity := by
        simp only [Budget.grow] at hgrow
        split at hgrow
        · cases hgrow
        · rename_i hgain
          obtain ⟨rfl, -⟩ := Prod.mk.inj (Option.some.inj hgrow)
          omega
      exact Or.inr ⟨n, b, hn.1, Nat.le_trans hn.2 hmax, fun _ => rfl, by simp, rfl⟩

/-! ## Making room -/

/-- The cache with a new entry, before room is made for it. -/
def entered (c : Cache σ α) (id : ObjectId) (h : Handle) : Cache σ α :=
  { c with
    entries := c.entries.insert id h
    recency := c.recency.pushBack id
    accounting := c.accounting.recordInsert id }

theorem size_entered {c : Cache σ α} {id : ObjectId} (hnew : c.entries.get? id = none)
    (h : Handle) : (c.entered id h).size = c.size + 1 :=
  Table.size_insert_new hnew h

theorem size_drop {c : Cache σ α} {id : ObjectId} {h : Handle}
    (hget : c.entries.get? id = some h) : (c.drop id).size + 1 = c.size :=
  Table.size_erase hget

variable [Cacheable α]

/-- **How room is made**: an eviction and perhaps growth; or growth; or the new entry goes again. -/
theorem makeRoom_cases (c : Cache σ α) (id : ObjectId) (h : Handle) (w : Workspace σ α) :
    (∃ id' h' w', id' ∈ c.ids ∧ Finds c (some id) w id' h' w' ∧
      (c.makeRoom id h w =
          { value := .ok .cached, left := [h'], cache := c.evicted id', workspace := w' } ∨
        ∃ n b, c.capacity < n ∧ n ≤ c.settings.maxCapacity ∧
          c.makeRoom id h w =
            { value := .ok .cached
              left := [h']
              cache := (c.evicted id').setCapacity n
              workspace := w'.setBudget b })) ∨
    (∃ w', Refused c w w' ∧
      ((∃ n b, c.capacity < n ∧ n ≤ c.settings.maxCapacity ∧
          c.makeRoom id h w =
            { value := .ok .cached, cache := c.setCapacity n, workspace := w'.setBudget b }) ∨
        c.makeRoom id h w =
          { value := .error (.capacityExhausted c.name c.capacity (c.drop id).size)
            left := [h]
            cache := c.drop id
            workspace := w' })) := by
  unfold makeRoom
  rcases evictionPass_cases c (some id) w with ⟨w', hr, hpass⟩ | ⟨id', h', w', hm, hf, hpass⟩
  · refine Or.inr ⟨w', hr, ?_⟩
    simp only [hpass]
    rcases grow_cases c w' with hgrow | ⟨n, b, hlt, hmax, -, -, hgrow⟩
    · right
      rw [hgrow]
      rfl
    · left
      exact ⟨n, b, hlt, hmax, by rw [hgrow]⟩
  · refine Or.inl ⟨id', h', w', hm, hf, ?_⟩
    simp only [hpass]
    split
    · rcases grow_cases (c.evicted id') w' with hgrow | ⟨n, b, hlt, hmax, -, -, hgrow⟩
      · left
        rw [hgrow]
      · right
        exact ⟨n, b, hlt, hmax, by rw [hgrow]⟩
    · exact Or.inl rfl

/-! ## Adding -/

theorem add_eq (c : Cache σ α) (h : Handle) (refCount : UInt32) (w : Workspace σ α) :
    c.add h refCount w =
      match c.operational, w.identity? h with
      | true, some id =>
        let w := w.modify h ({ · with refCount })
        match c.entries.get? id with
        | some previous => c.replace id previous h w
        | none =>
          if (c.entered id h).size ≤ c.capacity then
            { value := .ok .cached, cache := c.entered id h, workspace := w }
          else (c.entered id h).makeRoom id h w
      | _, _ => { value := .ok .notCached, cache := c, workspace := w } := rfl

/-- **What adding comes to.**  Where the instance is taken, its reference count is set first. -/
theorem add_cases (c : Cache σ α) (h : Handle) (refCount : UInt32) (w : Workspace σ α) :
    ((c.operational = false ∨ w.identity? h = none) ∧
      c.add h refCount w = { value := .ok .notCached, cache := c, workspace := w }) ∨
    ∃ id w', c.operational = true ∧ w.identity? h = some id ∧
      w' = w.modify h ({ · with refCount }) ∧
      ((∃ previous, c.entries.get? id = some previous ∧
          c.add h refCount w = c.replace id previous h w') ∨
        (c.entries.get? id = none ∧
          (((c.entered id h).size ≤ c.capacity ∧
              c.add h refCount w =
                { value := .ok .cached, cache := c.entered id h, workspace := w' }) ∨
            (c.capacity < (c.entered id h).size ∧
              c.add h refCount w = (c.entered id h).makeRoom id h w')))) := by
  rw [add_eq]
  cases hop : c.operational with
  | false => exact Or.inl ⟨Or.inl rfl, rfl⟩
  | true =>
    cases hid : w.identity? h with
    | none => exact Or.inl ⟨Or.inr rfl, rfl⟩
    | some id =>
      refine Or.inr ⟨id, _, rfl, rfl, rfl, ?_⟩
      cases hget : c.entries.get? id with
      | some previous => exact Or.inl ⟨previous, rfl, by simp only [hget]⟩
      | none =>
        refine Or.inr ⟨rfl, ?_⟩
        simp only [hget]
        by_cases hsize : (c.entered id h).size ≤ c.capacity
        · exact Or.inl ⟨hsize, if_pos hsize⟩
        · exact Or.inr ⟨Nat.lt_of_not_le hsize, if_neg hsize⟩

/-! ## Changing the capacity -/

/-- The cache with a higher capacity, and with a maximum that allows for it. -/
def enlarged (c : Cache σ α) (capacity : Nat) : Cache σ α :=
  setCapacity { c with
    settings := { c.settings with maxCapacity := max c.settings.maxCapacity capacity } } capacity

omit [Cacheable α] in
theorem enlarge_cases (c : Cache σ α) (capacity : Nat) (w : Workspace σ α) :
    (∃ e, c.enlarge capacity w = .error e) ∨
      ∃ b, c.enlarge capacity w = .ok (c.enlarged capacity, w.setBudget b) := by
  unfold enlarge
  split
  · cases w.budget.reserve c.name c.capacity capacity with
    | error e => exact Or.inl ⟨e, rfl⟩
    | ok b => exact Or.inr ⟨b, rfl⟩
  · exact Or.inr ⟨w.budget, rfl⟩

/-- **What a change of capacity comes to**: a refusal, a higher capacity, or evictions. -/
theorem resize_cases (c : Cache σ α) (capacity : Nat) (w : Workspace σ α) :
    (∃ e, c.resize capacity w = { value := .error e, cache := c, workspace := w }) ∨
    (∃ b, c.capacity ≤ capacity ∧
      c.resize capacity w =
        { value := .ok { requested := capacity, capacity, size := c.size, evicted := 0 }
          cache := c.enlarged capacity
          workspace := w.setBudget b }) ∨
    ∃ passes b, capacity < c.capacity ∧ passes = c.evictUpTo w (c.size - capacity) ∧
      (c.resize capacity w).left = passes.left ∧
      (c.resize capacity w).cache = passes.cache.setCapacity (max capacity passes.cache.size) ∧
      (c.resize capacity w).workspace = passes.workspace.setBudget b := by
  unfold resize
  by_cases hle : c.capacity ≤ capacity
  · rw [if_pos hle]
    rcases enlarge_cases c capacity w with ⟨e, henlarge⟩ | ⟨b, henlarge⟩
    · exact Or.inl ⟨e, by rw [henlarge]⟩
    · exact Or.inr (Or.inl ⟨b, hle, by rw [henlarge]⟩)
  · rw [if_neg hle]
    -- the budget is told of the new capacity if it knows of the cache
    obtain ⟨b, hb⟩ : ∃ b, (c.shrink capacity w).workspace =
        (c.evictUpTo w (c.size - capacity)).workspace.setBudget b := by
      simp only [shrink]
      split
      · exact ⟨_, rfl⟩
      · exact ⟨_, rfl⟩
    exact Or.inr (Or.inr ⟨_, b, Nat.lt_of_not_le hle, rfl, rfl, rfl, hb⟩)

/-! ## Several passes -/

section Passes
variable {P : Cache σ α → Workspace σ α → Prop}

/-- What refusals and evictions keep, a pass keeps. -/
theorem evictionPass_induction {c : Cache σ α} {w : Workspace σ α} {exclude : Option ObjectId}
    (refused : ∀ w', Refused c w w' → P c w')
    (found : ∀ id h w', id ∈ c.ids → Finds c exclude w id h w' → P (c.evicted id) w') :
    P (c.evictionPass exclude w).cache (c.evictionPass exclude w).workspace := by
  rcases evictionPass_cases c exclude w with ⟨w', hr, hpass⟩ | ⟨id, h, w', hm, hf, hpass⟩
  · rw [hpass]
    exact refused w' hr
  · rw [hpass]
    exact found id h w' hm hf

/-- **What refusals and evictions keep, any number of passes keeps.** -/
theorem evictUpTo_induction
    (refused : ∀ c w w', P c w → Refused c w w' → P c w')
    (found : ∀ c w id h w', P c w → id ∈ c.ids → Finds c none w id h w' → P (c.evicted id) w')
    {c : Cache σ α} {w : Workspace σ α} (hP : P c w) (count : Nat) :
    P (c.evictUpTo w count).cache (c.evictUpTo w count).workspace := by
  induction count generalizing c w with
  | zero => exact hP
  | succ count ih =>
    have hpass : P (c.evictionPass none w).cache (c.evictionPass none w).workspace :=
      evictionPass_induction (fun w' hr => refused c w w' hP hr)
        (fun id h w' hm hf => found c w id h w' hP hm hf)
    unfold evictUpTo
    cases hv : (c.evictionPass none w).value with
    | none => simpa only [hv] using hpass
    | some id => simpa only [hv] using ih hpass

end Passes

/-! ## Operations -/

/-- What the owner of a cache can ask of it. -/
inductive Operation where
  | get (id : ObjectId)
  | add (h : Handle) (refCount : UInt32)
  | remove (id : ObjectId)
  | evict
  | resize (capacity : Nat)
  | setOperational (operational : Bool)
deriving DecidableEq, Repr

/-- The cache and the workspace after an operation. -/
def perform (c : Cache σ α) (w : Workspace σ α) : Operation → Cache σ α × Workspace σ α
  | .get id => ((c.get id).2, w)
  | .add h refCount => ((c.add h refCount w).cache, (c.add h refCount w).workspace)
  | .remove id => ((c.remove id).2, w)
  | .evict => ((c.evict w).cache, (c.evict w).workspace)
  | .resize capacity => ((c.resize capacity w).cache, (c.resize capacity w).workspace)
  | .setOperational operational => (c.setOperational operational, w)

/-- A cache is put into operation and out of it by its owner only. -/
def Operation.operates (op : Operation) (before : Bool) : Bool :=
  match op with
  | .setOperational operational => operational
  | _ => before

/-- What an operation does not touch: the hook, and whether the cache is in operation. -/
theorem perform_wiring (c : Cache σ α) (w : Workspace σ α) (op : Operation) :
    (c.perform w op).1.flushHook = c.flushHook ∧
      (c.perform w op).1.operational = op.operates c.operational := by
  cases op with
  | get id =>
    simp only [perform, Cache.get]
    split <;> exact ⟨rfl, rfl⟩
  | remove id =>
    simp only [perform, Cache.remove]
    split <;> exact ⟨rfl, rfl⟩
  | setOperational operational => exact ⟨rfl, rfl⟩
  | evict =>
    exact evictionPass_induction
      (P := fun c' _ => c'.flushHook = c.flushHook ∧ c'.operational = c.operational)
      (fun _ _ => ⟨rfl, rfl⟩) fun _ _ _ _ _ => ⟨rfl, rfl⟩
  | resize capacity =>
    rcases resize_cases c capacity w with
      ⟨e, hresize⟩ | ⟨b, -, hresize⟩ | ⟨_, b, -, rfl, -, hcache, -⟩
    · rw [perform, hresize]
      exact ⟨rfl, rfl⟩
    · rw [perform, hresize]
      exact ⟨rfl, rfl⟩
    · rw [perform, hcache]
      exact evictUpTo_induction
        (P := fun c' _ => c'.flushHook = c.flushHook ∧ c'.operational = c.operational)
        (fun _ _ _ heq _ => heq) (fun _ _ _ _ _ heq _ _ => heq) ⟨rfl, rfl⟩ _
  | add h refCount =>
    rcases add_cases c h refCount w with ⟨-, hadd⟩ | ⟨id, w', -, -, -, ⟨_, -, hadd⟩ | ⟨-, hadd⟩⟩
    · rw [perform, hadd]
      exact ⟨rfl, rfl⟩
    · rw [perform, hadd]
      exact ⟨rfl, rfl⟩
    · rcases hadd with ⟨-, hadd⟩ | ⟨-, hadd⟩
      · rw [perform, hadd]
        exact ⟨rfl, rfl⟩
      rcases makeRoom_cases (c.entered id h) id h w' with
        ⟨id', h', w', -, -, hroom | ⟨n, b, -, -, hroom⟩⟩ |
          ⟨w', -, ⟨n, b, -, -, hroom⟩ | hroom⟩
      -- each exit changes entries, capacity and accounting only
      all_goals
        rw [perform, hadd, hroom]
        exact ⟨rfl, rfl⟩

/-- The passes that evict up to `count` objects, until one makes no progress. -/
def passesUpTo (c : Cache σ α) (w : Workspace σ α) :
    (count : Nat) → List (Result σ α (Option ObjectId))
  | 0 => []
  | count + 1 =>
    let pass := c.evictionPass none w
    match pass.value with
    | none => [pass]
    | some _ => pass :: passesUpTo pass.cache pass.workspace count

/-- The eviction passes that an operation runs, in their order. -/
def passes (c : Cache σ α) (w : Workspace σ α) : Operation → List (Result σ α (Option ObjectId))
  | .add h refCount =>
    match c.operational, w.identity? h with
    | true, some id =>
      if (c.entries.get? id).isSome ∨ (c.entered id h).size ≤ c.capacity then []
      else [(c.entered id h).evictionPass (some id) (w.modify h ({ · with refCount }))]
    | _, _ => []
  | .evict => [c.evictionPass none w]
  | .resize capacity => if c.capacity ≤ capacity then [] else c.passesUpTo w (c.size - capacity)
  | _ => []

/-- The passes account for every object that shrinking lets go. -/
theorem left_evictUpTo (c : Cache σ α) (w : Workspace σ α) (count : Nat) :
    (c.evictUpTo w count).left = (c.passesUpTo w count).flatMap (·.left) := by
  induction count generalizing c w with
  | zero => rfl
  | succ count ih =>
    unfold evictUpTo passesUpTo
    rcases evictionPass_cases c none w with ⟨w', -, hpass⟩ | ⟨id, h, w', -, -, hpass⟩
    · simp [hpass]
    · simp [hpass, ih]

theorem left_makeRoom {c : Cache σ α} {id : ObjectId} {h : Handle} {w : Workspace σ α}
    (hroom : (c.makeRoom id h w).value = .ok .cached) :
    (c.makeRoom id h w).left = (c.evictionPass (some id) w).left := by
  unfold makeRoom at hroom ⊢
  rcases evictionPass_cases c (some id) w with ⟨w', -, hpass⟩ | ⟨id', h', w', -, -, hpass⟩
  · simp only [hpass] at hroom ⊢
    rcases grow_cases c w' with hgrow | ⟨n, b, -, -, -, -, hgrow⟩
    · rw [hgrow] at hroom
      cases hroom
    · rw [hgrow]
  · simp only [hpass]
    split <;> rfl

/-- The pass of an addition accounts for what leaves when the new object stays. -/
theorem left_add {c : Cache σ α} {h : Handle} {refCount : UInt32} {w : Workspace σ α}
    (hadd : (c.add h refCount w).value = .ok .cached) :
    (c.add h refCount w).left = (c.passes w (.add h refCount)).flatMap (·.left) := by
  rcases add_cases c h refCount w with ⟨-, hcase⟩ | ⟨id, w', hop, hid, rfl, hcase⟩
  · rw [hcase] at hadd
    cases hadd
  rcases hcase with ⟨previous, -, hcase⟩ | ⟨hnew, ⟨hsize, hcase⟩ | ⟨hsize, hcase⟩⟩
  · rw [hcase] at hadd
    cases hadd
  · rw [hcase]
    simp [passes, hop, hid, hsize]
  · rw [hcase] at hadd ⊢
    simp [passes, hop, hid, hnew, Nat.not_le.2 hsize, left_makeRoom hadd]

theorem exists_of_mem_passesUpTo {c : Cache σ α} {w : Workspace σ α} {count : Nat}
    {pass : Result σ α (Option ObjectId)} (hpass : pass ∈ c.passesUpTo w count) :
    ∃ (c' : Cache σ α) (w' : Workspace σ α),
      c'.flushHook = c.flushHook ∧ pass = c'.evictionPass none w' := by
  induction count generalizing c w with
  | zero => cases hpass
  | succ count ih =>
    unfold passesUpTo at hpass
    rcases evictionPass_cases c none w with ⟨w', -, hcase⟩ | ⟨id, h, w', -, -, hcase⟩
    · simp only [hcase, List.mem_singleton] at hpass
      exact ⟨c, w, rfl, hpass.trans hcase.symm⟩
    · simp only [hcase, List.mem_cons] at hpass
      rcases hpass with rfl | hpass
      · exact ⟨c, w, rfl, hcase.symm⟩
      · obtain ⟨c', w'', hhook, rfl⟩ := ih hpass
        exact ⟨c', w'', hhook, rfl⟩

/-- Every pass of an operation is an eviction pass on some state of the cache. -/
theorem exists_of_mem_passes {c : Cache σ α} {w : Workspace σ α} {op : Operation}
    {pass : Result σ α (Option ObjectId)} (hpass : pass ∈ c.passes w op) :
    ∃ (c' : Cache σ α) (exclude : Option ObjectId) (w' : Workspace σ α),
      c'.flushHook = c.flushHook ∧ pass = c'.evictionPass exclude w' := by
  cases op with
  | get id => cases hpass
  | remove id => cases hpass
  | setOperational operational => cases hpass
  | evict => exact ⟨c, none, w, rfl, List.mem_singleton.1 hpass⟩
  | resize capacity =>
    simp only [passes] at hpass
    split at hpass
    · cases hpass
    · obtain ⟨c', w', hhook, rfl⟩ := exists_of_mem_passesUpTo hpass
      exact ⟨c', none, w', hhook, rfl⟩
  | add h refCount =>
    simp only [passes] at hpass
    split at hpass
    · rename_i id _ _
      split at hpass
      · cases hpass
      · exact ⟨c.entered id h, some id, _, rfl, List.mem_singleton.1 hpass⟩
    · cases hpass

end Folio.Cache
