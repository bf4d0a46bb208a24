import Folio.Proofs.Cache.Saving
import Folio.Store

/-! # Flushes and locks

A hook is promised the read lock of what it writes.  The calls of an operation to its hook are
listed by `calls`, each with the instance as the cache came upon it and as the hook was given
it; `perform_noted` says that the list is complete and in order, by running the operation with a
hook that takes notes.

An eviction pass keeps the promise, but an instance that is replaced is written back as it
stands, whoever has locked it.  So the calls of an operation are made under the lock exactly
if it displaces no dirty instance while there is a hook: **`flushes_locked_iff`**.
-/
namespace Folio

/-- Whoever gets a lock for reading finds it free and has one hold more. -/
theorem Lock.tryAcquire_read_iff {lock held : Lock} :
    lock.tryAcquire .read = some held ↔ lock.admits .read = true ∧ held = lock.grant .read := by
  unfold tryAcquire
  split
  · simp [*, eq_comm]
  · simp [*]

namespace Cache

variable {σ α : Type}

/-! ## The calls -/

/-- A call to the hook. -/
structure Call (α : Type) where
  handle : Handle
  /-- The instance when the cache came upon it. -/
  found : Instance α
  /-- The instance that the hook was given. -/
  given : Instance α

/-- While the call lasts nobody writes, and the cache has a read hold of its own. -/
def Call.UnderLock (call : Call α) : Prop :=
  call.given.lock.writer = false ∧ call.given.lock.readers = call.found.lock.readers + 1

/-- What the hook is given of an instance that has to be written back. -/
def flushed (hook : Option (FlushHook σ α)) (i : Instance α) : List (Instance α) :=
  if i.dirty && hook.isSome then [i.setDirty false] else []

/-- The call for an instance that was found as `i` and has to be written back as `j`. -/
def flushCalls (hook : Option (FlushHook σ α)) (h : Handle) (i j : Instance α) : List (Call α) :=
  (flushed hook j).map fun given => { handle := h, found := i, given }

@[simp] theorem given_flushCalls (hook : Option (FlushHook σ α)) (h : Handle) (i j : Instance α) :
    (flushCalls hook h i j).map (·.given) = flushed hook j := by
  rw [flushCalls, List.map_map]
  exact List.map_id _

variable [Cacheable α]

/-- The call for an instance that is asked whether it may leave. -/
def askCalls (hook : Option (FlushHook σ α)) (h : Handle) (i : Instance α) : List (Call α) :=
  if i.refCount ≠ 0 then []
  else
    match i.lock.tryAcquire .read with
    | none => []
    | some held =>
      let (allowed, j) := Cacheable.allowUnload (i.setLock held)
      if allowed && j.refCount == 0 then flushCalls hook h i j else []

def tryCalls (c : Cache σ α) (h : Handle) (w : Workspace σ α) : List (Call α) :=
  (w.pool.get? h).elim [] (askCalls c.flushHook h)

def scanCalls (c : Cache σ α) (exclude : Option ObjectId) :
    List ObjectId → Workspace σ α → List (Call α)
  | [], _ => []
  | id :: ids, w =>
    if exclude = some id then scanCalls c exclude ids w
    else
      match c.entries.get? id with
      | none => scanCalls c exclude ids w
      | some h =>
        match c.tryUnload h w with
        | (true, _) => c.tryCalls h w
        | (false, w') => c.tryCalls h w ++ scanCalls c exclude ids w'

def searchCalls (c : Cache σ α) (exclude : Option ObjectId) :
    (attempts : Nat) → Workspace σ α → List (Call α)
  | 0, _ => []
  | attempts + 1, w =>
    match c.scan exclude c.ids w with
    | (some _, _) => c.scanCalls exclude c.ids w
    | (none, w') => c.scanCalls exclude c.ids w ++ searchCalls c exclude attempts w'

/-- The calls of the pass that begins so. -/
def Start.calls (s : Start σ α) : List (Call α) :=
  s.cache.searchCalls s.exclude (max s.cache.settings.evictionAttempts 1) s.workspace

/-- The instance that adding another one under its identity displaces. -/
def displaced? (c : Cache σ α) (w : Workspace σ α) : Operation → Option Handle
  | .add h _ =>
    match c.operational, w.identity? h with
    | true, some id => (c.entries.get? id).filter (· ≠ h)
    | _, _ => none
  | _ => none

/-- The call for the instance that an operation displaces. -/
def replacementCalls (c : Cache σ α) (w : Workspace σ α) (op : Operation) : List (Call α) :=
  (c.displaced? w op).elim [] fun h =>
    (w.pool.get? h).elim [] fun i => flushCalls c.flushHook h i i

/-- The calls to the hook that an operation makes, in their order. -/
def calls (c : Cache σ α) (w : Workspace σ α) (op : Operation) : List (Call α) :=
  c.replacementCalls w op ++ (c.starts w op).flatMap (·.calls)

/-! ## A hook that takes notes -/

/-- The hook with notes of the instances that it is given. -/
def noting (f : FlushHook σ α) : FlushHook (σ × List (Instance α)) α := fun i s =>
  let (answer, k, outside) := f i s.1
  (answer, k, outside, s.2 ++ [i])

/-- The cache with a hook that takes notes. -/
def noted (c : Cache σ α) : Cache (σ × List (Instance α)) α where
  name := c.name
  capacity := c.capacity
  settings := c.settings
  entries := c.entries
  recency := c.recency
  accounting := c.accounting
  operational := c.operational
  attached := c.attached
  flushHook := c.flushHook.map noting

/-- The workspace with the notes that were taken. -/
def Workspace.noted (notes : List (Instance α)) (w : Workspace σ α) :
    Workspace (σ × List (Instance α)) α where
  pool := w.pool
  budget := w.budget
  outside := (w.outside, notes)

def Result.noted {β : Type} (notes : List (Instance α)) (r : Result σ α β) :
    Result (σ × List (Instance α)) α β where
  value := r.value
  left := r.left
  cache := r.cache.noted
  workspace := r.workspace.noted notes

section Noted
variable (hook : Option (FlushHook σ α)) (c : Cache σ α) (w : Workspace σ α)
  (notes : List (Instance α))

section
omit [Cacheable α]

@[simp] theorem noted_name : c.noted.name = c.name := rfl

@[simp] theorem noted_capacity : c.noted.capacity = c.capacity := rfl

@[simp] theorem noted_settings : c.noted.settings = c.settings := rfl

@[simp] theorem noted_entries : c.noted.entries = c.entries := rfl

@[simp] theorem noted_accounting : c.noted.accounting = c.accounting := rfl

@[simp] theorem noted_operational : c.noted.operational = c.operational := rfl

@[simp] theorem noted_attached : c.noted.attached = c.attached := rfl

@[simp] theorem noted_flushHook : c.noted.flushHook = c.flushHook.map noting := rfl

@[simp] theorem noted_ids : c.noted.ids = c.ids := rfl

@[simp] theorem noted_size : c.noted.size = c.size := rfl

@[simp] theorem noted_setCapacity (n : Nat) :
    c.noted.setCapacity n = (c.setCapacity n).noted := rfl

@[simp] theorem noted_entered (id : ObjectId) (h : Handle) :
    c.noted.entered id h = (c.entered id h).noted := rfl

@[simp] theorem Workspace.noted_pool : (w.noted notes).pool = w.pool := rfl

@[simp] theorem Workspace.noted_budget : (w.noted notes).budget = w.budget := rfl

@[simp] theorem Workspace.noted_outside : (w.noted notes).outside = (w.outside, notes) := rfl

@[simp] theorem Workspace.noted_setBudget (b : Budget) :
    (w.noted notes).setBudget b = (w.setBudget b).noted notes := rfl

@[simp] theorem Workspace.noted_modify (h : Handle) (f : Instance α → Instance α) :
    (w.noted notes).modify h f = (w.modify h f).noted notes := rfl

theorem flushBeforeUnload_noted (i : Instance α) (s : σ) :
    flushBeforeUnload (hook.map noting) i (s, notes) =
      ((flushBeforeUnload hook i s).1, (flushBeforeUnload hook i s).2.1,
        (flushBeforeUnload hook i s).2.2, notes ++ flushed hook i) := by
  unfold flushBeforeUnload flushed
  cases hdirty : i.dirty with
  | false => simp
  | true =>
    cases hook with
    | none => simp
    | some f => rcases hf : f (i.setDirty false) s with ⟨_ | _, m, s'⟩ <;> simp [noting, hf]

theorem flushReplaced_noted (i : Instance α) (s : σ) :
    flushReplaced (hook.map noting) i (s, notes) =
      ((flushReplaced hook i s).1, (flushReplaced hook i s).2, notes ++ flushed hook i) := by
  unfold flushReplaced flushed
  cases hdirty : i.dirty with
  | false => simp
  | true =>
    cases hook with
    | none => simp
    | some f => rcases hf : f (i.setDirty false) s with ⟨_ | _, m, s'⟩ <;> simp [noting, hf]

/-- Growing calls no hook. -/
theorem grow_noted :
    c.noted.grow (w.noted notes) =
      ((c.grow w).1, (c.grow w).2.1.noted, (c.grow w).2.2.noted notes) := by
  unfold grow
  simp only [noted_settings, noted_capacity, noted_attached, noted_name, noted_setCapacity,
    Workspace.noted_budget, Workspace.noted_setBudget]
  by_cases hle : c.settings.grown c.capacity ≤ c.capacity
  · simp only [hle, ite_true]
  by_cases hattached : c.attached = true
  · simp only [hle, hattached, ite_false, ite_true]
    cases w.budget.grow c.name c.capacity (c.settings.grown c.capacity) with
    | none => rfl
    | some granted => rfl
  · simp only [hle, hattached, ite_false, Bool.false_eq_true]

end

/-! ### Passes -/

theorem mayUnload_noted (h : Handle) (i : Instance α) (s : σ) :
    mayUnload (hook.map noting) i (s, notes) =
      ((mayUnload hook i s).1, (mayUnload hook i s).2.1, (mayUnload hook i s).2.2,
        notes ++ (askCalls hook h i).map (·.given)) := by
  unfold mayUnload askCalls
  split
  · simp
  cases i.lock.tryAcquire .read with
  | none => simp
  | some held =>
    dsimp only
    split
    · simp [flushBeforeUnload_noted]
    · simp

theorem tryUnload_noted (h : Handle) :
    c.noted.tryUnload h (w.noted notes) =
      ((c.tryUnload h w).1,
        (c.tryUnload h w).2.noted (notes ++ (c.tryCalls h w).map (·.given))) := by
  unfold tryUnload tryCalls
  cases hi : w.pool.get? h with
  | none => simp [hi]
  | some i =>
    simp only [noted_flushHook, Workspace.noted_pool, Workspace.noted_outside, hi,
      mayUnload_noted c.flushHook notes h i]
    rfl

theorem scan_noted (exclude : Option ObjectId) (ids : List ObjectId) :
    c.noted.scan exclude ids (w.noted notes) =
      ((c.scan exclude ids w).1,
        (c.scan exclude ids w).2.noted (notes ++ (c.scanCalls exclude ids w).map (·.given))) := by
  induction ids generalizing w notes with
  | nil => simp [scan, scanCalls]
  | cons id ids ih =>
    unfold scan scanCalls
    split
    · exact ih w notes
    rw [noted_entries]
    cases c.entries.get? id with
    | none => exact ih w notes
    | some h =>
      have htry := tryUnload_noted c w notes h
      rcases hcase : c.tryUnload h w with ⟨_ | _, w'⟩
      · rw [hcase] at htry
        simp only [htry, hcase, ih, List.map_append, List.append_assoc]
      · rw [hcase] at htry
        simp only [htry, hcase]

theorem search_noted (exclude : Option ObjectId) (attempts : Nat) :
    c.noted.search exclude attempts (w.noted notes) =
      ((c.search exclude attempts w).1,
        (c.search exclude attempts w).2.noted
          (notes ++ (c.searchCalls exclude attempts w).map (·.given))) := by
  induction attempts generalizing w notes with
  | zero => simp [search, searchCalls]
  | succ attempts ih =>
    have hscan := scan_noted c w notes exclude c.ids
    unfold search searchCalls
    rcases hcase : c.scan exclude c.ids w with ⟨_ | found, w'⟩
    · rw [hcase] at hscan
      simp only [noted_ids, hscan, ih, List.map_append, List.append_assoc]
    · rw [hcase] at hscan
      simp only [noted_ids, hscan]

theorem evictionPass_noted (exclude : Option ObjectId) :
    c.noted.evictionPass exclude (w.noted notes) =
      (c.evictionPass exclude w).noted
        (notes ++ (Start.calls ⟨c, exclude, w⟩).map (·.given)) := by
  have hsearch := search_noted c w notes exclude (max c.settings.evictionAttempts 1)
  unfold evictionPass Start.calls
  rcases hcase : c.search exclude (max c.settings.evictionAttempts 1) w with ⟨_ | found, w'⟩
  all_goals
    rw [hcase] at hsearch
    simp only [noted_settings, hsearch]
    rfl

theorem evictUpTo_noted (count : Nat) :
    c.noted.evictUpTo (w.noted notes) count =
      (c.evictUpTo w count).noted
        (notes ++ ((c.startsUpTo w count).flatMap (·.calls)).map (·.given)) := by
  induction count generalizing c w notes with
  | zero => simp [evictUpTo, startsUpTo, Result.noted]
  | succ count ih =>
    have hpass := evictionPass_noted c w notes none
    unfold evictUpTo startsUpTo
    dsimp only [Start.pass]
    rw [hpass]
    cases hvalue : (c.evictionPass none w).value with
    | none => simp [Result.noted, hvalue]
    | some id => simp [Result.noted, hvalue, ih]

/-! ### Operations -/

theorem makeRoom_noted (id : ObjectId) (h : Handle) :
    c.noted.makeRoom id h (w.noted notes) =
      (c.makeRoom id h w).noted
        (notes ++ (Start.calls ⟨c, some id, w⟩).map (·.given)) := by
  unfold makeRoom
  dsimp only
  rw [evictionPass_noted]
  rcases hpass : c.evictionPass (some id) w with ⟨_ | found, left, c', w'⟩
  · simp only [Result.noted, grow_noted]
    rcases c'.grow w' with ⟨_ | _, c'', w''⟩ <;> rfl
  · simp only [Result.noted, grow_noted, noted_accounting, noted_settings]
    split <;> rfl

omit [Cacheable α] in
theorem replace_noted (id : ObjectId) (previous h : Handle) :
    c.noted.replace id previous h (w.noted notes) =
      (c.replace id previous h w).noted (notes ++
        if previous = h then []
        else (w.pool.get? previous).elim [] (flushed c.flushHook)) := by
  unfold replace
  rw [Workspace.noted_pool]
  cases w.pool.get? previous with
  | none =>
    rw [Option.elim_none, ite_self, List.append_nil]
    rfl
  | some i =>
    by_cases hsame : previous = h
    · simp only [if_pos hsame, List.append_nil]
      rfl
    · simp only [if_neg hsame, noted_flushHook, Workspace.noted_outside, flushReplaced_noted,
        Option.elim_some]
      rfl

/-- Only the instance that is displaced is written back. -/
theorem given_replacementCalls {h previous : Handle} (refCount : UInt32) {id : ObjectId}
    (hop : c.operational = true) (hid : w.identity? h = some id)
    (hget : c.entries.get? id = some previous) :
    (c.replacementCalls w (.add h refCount)).map (·.given) =
      if previous = h then []
      else ((w.modify h ({ · with refCount })).pool.get? previous).elim [] (flushed c.flushHook) := by
  simp only [replacementCalls, displaced?, hop, hid, hget, Option.filter_some]
  by_cases hsame : previous = h
  · simp [hsame]
  · have hother : (w.modify h ({ · with refCount })).pool.get? previous = w.pool.get? previous := by
      simp [Workspace.modify, Workspace.setPool, Ne.symm hsame]
    rw [hother]
    cases hi : w.pool.get? previous <;> simp [hsame, hi]

theorem add_noted (h : Handle) (refCount : UInt32) :
    c.noted.add h refCount (w.noted notes) =
      (c.add h refCount w).noted
        (notes ++ (c.calls w (.add h refCount)).map (·.given)) := by
  have hidentity : (w.noted notes).identity? h = w.identity? h := rfl
  rw [add_eq, add_eq, noted_operational, hidentity]
  cases hop : c.operational with
  | false => simp [calls, replacementCalls, displaced?, starts, hop, Result.noted]
  | true =>
    cases hid : w.identity? h with
    | none => simp [calls, replacementCalls, displaced?, starts, hop, hid, Result.noted]
    | some id =>
      simp only [noted_entries, Workspace.noted_modify]
      cases hget : c.entries.get? id with
      | some previous =>
        have hgiven := given_replacementCalls c w refCount hop hid hget
        simp only [replace_noted, calls, starts, hop, hid, hget, Option.isSome_some, true_or,
          ite_true, List.flatMap_nil, List.append_nil, hgiven]
      | none =>
        have hnobody : c.replacementCalls w (.add h refCount) = [] := by
          simp [replacementCalls, displaced?, hop, hid, hget]
        simp only [noted_entered, noted_size, noted_capacity, calls, hnobody, starts, hop, hid, hget]
        by_cases hsize : (c.entered id h).size ≤ c.capacity
        · simp [hsize, Result.noted]
        · simp [hsize, makeRoom_noted]

omit [Cacheable α] in
theorem enlarge_noted (capacity : Nat) :
    c.noted.enlarge capacity (w.noted notes) =
      (c.enlarge capacity w).map fun (c', w') => (c'.noted, w'.noted notes) := by
  unfold enlarge
  simp only [noted_attached, noted_name, noted_capacity, Workspace.noted_budget]
  by_cases hattached : c.attached = true
  · simp only [hattached, ite_true]
    cases w.budget.reserve c.name c.capacity capacity <;> rfl
  · simp only [hattached, ite_false, Bool.false_eq_true]
    rfl

theorem resize_noted (capacity : Nat) :
    c.noted.resize capacity (w.noted notes) =
      (c.resize capacity w).noted
        (notes ++ (c.calls w (.resize capacity)).map (·.given)) := by
  have hnobody : c.replacementCalls w (.resize capacity) = [] := rfl
  unfold resize
  simp only [noted_capacity, calls, hnobody, starts, List.nil_append]
  by_cases hle : c.capacity ≤ capacity
  · simp only [hle, ite_true, enlarge_noted, List.flatMap_nil, List.map_nil, List.append_nil]
    cases c.enlarge capacity w <;> rfl
  · simp only [hle, ite_false, shrink, noted_size, noted_attached, noted_name, evictUpTo_noted]
    by_cases hattached : c.attached = true
    · simp only [hattached, ite_true]
      rfl
    · simp only [hattached, ite_false, Bool.false_eq_true]
      rfl

/-- **The calls are those that a hook with notes has notes of.** -/
theorem perform_noted (op : Operation) :
    c.noted.perform (w.noted notes) op =
      ((c.perform w op).1.noted,
        (c.perform w op).2.noted (notes ++ (c.calls w op).map (·.given))) := by
  have hnobody (hnone : c.displaced? w op = none) (hstarts : c.starts w op = []) :
      c.calls w op = [] := by
    simp [calls, replacementCalls, hnone, hstarts]
  cases op with
  | get id =>
    rw [hnobody rfl rfl, List.map_nil, List.append_nil]
    simp only [perform, Cache.get, noted_entries]
    cases c.entries.get? id <;> rfl
  | remove id =>
    rw [hnobody rfl rfl, List.map_nil, List.append_nil]
    simp only [perform, Cache.remove, noted_entries]
    cases c.entries.get? id <;> rfl
  | setOperational operational =>
    rw [hnobody rfl rfl, List.map_nil, List.append_nil]
    rfl
  | add h refCount =>
    rw [perform, add_noted]
    rfl
  | resize capacity =>
    rw [perform, resize_noted]
    rfl
  | evict =>
    have hcalls : c.calls w .evict = Start.calls ⟨c, none, w⟩ := List.flatMap_singleton ..
    rw [perform, Cache.evict, evictionPass_noted, hcalls]
    rfl

end Noted

/-! ## Whose lock is held -/

/-- An object that is asked whether it may go leaves its lock as it is. -/
def LeavesLocks (α : Type) [Cacheable α] : Prop :=
  ∀ i : Instance α, (Cacheable.allowUnload i).2.lock = i.lock

section Locks
variable {hook : Option (FlushHook σ α)} {c : Cache σ α} {w : Workspace σ α} {h : Handle}
  {call : Call α} {op : Operation}

omit [Cacheable α] in
theorem mem_flushCalls {i j : Instance α} :
    call ∈ flushCalls hook h i j ↔
      j.dirty = true ∧ hook ≠ none ∧ call = { handle := h, found := i, given := j.setDirty false } := by
  unfold flushCalls flushed
  cases j.dirty with
  | false => simp
  | true =>
    cases hook with
    | none => simp
    | some f => simp

/-- **An instance that is asked is written back under the lock.** -/
theorem underLock_of_mem_askCalls (hlocks : LeavesLocks α) {i : Instance α}
    (hcall : call ∈ askCalls hook h i) : call.UnderLock := by
  unfold askCalls at hcall
  split at hcall
  · cases hcall
  cases hheld : i.lock.tryAcquire .read with
  | none => simp [hheld] at hcall
  | some held =>
    obtain ⟨hfree, rfl⟩ := Lock.tryAcquire_read_iff.1 hheld
    have hasked := hlocks (i.setLock (i.lock.grant .read))
    simp only [hheld] at hcall
    split at hcall
    · obtain ⟨-, -, rfl⟩ := mem_flushCalls.1 hcall
      have hnobody : i.lock.writer = false := by
        simp only [Lock.admits, Bool.and_eq_true, Bool.not_eq_true'] at hfree
        exact hfree.1
      refine ⟨?_, ?_⟩
      · exact (congrArg Lock.writer hasked).trans hnobody
      · exact congrArg Lock.readers hasked
    · cases hcall

theorem underLock_of_mem_scanCalls (hlocks : LeavesLocks α) {exclude : Option ObjectId}
    {ids : List ObjectId} (hcall : call ∈ c.scanCalls exclude ids w) : call.UnderLock := by
  have hask {h : Handle} {w : Workspace σ α} (hcall : call ∈ c.tryCalls h w) :
      call.UnderLock := by
    unfold tryCalls at hcall
    cases hi : w.pool.get? h with
    | none =>
      rw [hi] at hcall
      cases hcall
    | some i =>
      rw [hi] at hcall
      exact underLock_of_mem_askCalls hlocks hcall
  induction ids generalizing w with
  | nil => cases hcall
  | cons id ids ih =>
    unfold scanCalls at hcall
    split at hcall
    · exact ih hcall
    split at hcall
    · exact ih hcall
    split at hcall
    · exact hask hcall
    · exact (List.mem_append.1 hcall).elim hask ih

/-- **So is every instance that a pass writes back.** -/
theorem underLock_of_mem_calls (hlocks : LeavesLocks α) {start : Start σ α}
    (hcall : call ∈ start.calls) : call.UnderLock := by
  unfold Start.calls at hcall
  generalize max start.cache.settings.evictionAttempts 1 = attempts at hcall
  generalize start.workspace = w at hcall
  induction attempts generalizing w with
  | zero => cases hcall
  | succ attempts ih =>
    unfold searchCalls at hcall
    split at hcall
    · exact underLock_of_mem_scanCalls hlocks hcall
    · exact (List.mem_append.1 hcall).elim (underLock_of_mem_scanCalls hlocks) (ih _)

omit [Cacheable α] in
/-- An instance that is written back as it was found is not. -/
theorem not_underLock_of_mem_flushCalls {i : Instance α} (hcall : call ∈ flushCalls hook h i i) :
    ¬ call.UnderLock := by
  obtain ⟨-, -, rfl⟩ := mem_flushCalls.1 hcall
  exact fun hunder => Nat.ne_of_lt (Nat.lt_succ_self _) hunder.2

theorem mem_replacementCalls :
    call ∈ c.replacementCalls w op ↔
      ∃ h i, c.displaced? w op = some h ∧ w.pool.get? h = some i ∧
        call ∈ flushCalls c.flushHook h i i := by
  unfold replacementCalls
  cases c.displaced? w op with
  | none => simp
  | some h => cases hi : w.pool.get? h <;> simp [hi]

/-- **Flushes and locks.**  A hook that takes notes has notes of the calls and of no others.  All of
them are made under the lock of their object, so that nobody else is writing to it, exactly if
the operation displaces no dirty instance while there is a hook. -/
theorem flushes_locked_iff (hlocks : LeavesLocks α) (c : Cache σ α) (w : Workspace σ α)
    (op : Operation) :
    c.noted.perform (w.noted []) op =
      ((c.perform w op).1.noted, (c.perform w op).2.noted ((c.calls w op).map (·.given))) ∧
    ((∀ call ∈ c.calls w op, call.UnderLock) ↔
      ∀ h i, c.displaced? w op = some h → w.pool.get? h = some i → i.dirty = true →
        c.flushHook = none) := by
  refine ⟨perform_noted c w [] op, fun hall h i hh hi hdirty => ?_, fun hclean call hcall => ?_⟩
  · by_contra hhook
    have hcall : { handle := h, found := i, given := i.setDirty false } ∈
        flushCalls c.flushHook h i i := mem_flushCalls.2 ⟨hdirty, hhook, rfl⟩
    have hmem := mem_replacementCalls.2 ⟨h, i, hh, hi, hcall⟩
    exact not_underLock_of_mem_flushCalls hcall (hall _ (List.mem_append_left _ hmem))
  · rcases List.mem_append.1 hcall with hcall | hcall
    · obtain ⟨h, i, hh, hi, hcall⟩ := mem_replacementCalls.1 hcall
      obtain ⟨hdirty, hhook, -⟩ := mem_flushCalls.1 hcall
      exact absurd (hclean h i hh hi hdirty) hhook
    · obtain ⟨start, -, hcall⟩ := List.mem_flatMap.1 hcall
      exact underLock_of_mem_calls hlocks hcall

end Locks

/-! ## A collection in memory twice -/

/-- A dirty collection that may be locked, and another instance of it. -/
def duplicate (lock : Lock) : Workspace Store Record where
  pool := ⟨#[{ content := { id := 7, name := "/db" }, dirty := true, lock },
    { content := { id := 7, name := "/db" } }]⟩
  outside := {}

/-- An eviction writes the collection back under its lock. -/
theorem flushes_locked_evict :
    let c : Cache Store Record := single (some Store.flushHook) 7
    (c.calls (duplicate {}) .evict).map (·.handle) = [0] ∧
      ∀ call ∈ c.calls (duplicate {}) .evict, call.UnderLock :=
  ⟨by decide, (flushes_locked_iff (fun _ => rfl) _ _ .evict).2.2 fun _ _ hnone => nomatch hnone⟩

/-- When the other instance takes its place, it is written back while somebody else is writing to
it. -/
theorem flushes_write_locked :
    let c : Cache Store Record := single (some Store.flushHook) 7
    let calls := c.calls (duplicate { writer := true }) (.add 1 0)
    calls.map (fun call => (call.handle, call.given.lock)) = [(0, { writer := true })] ∧
      ¬ ∀ call ∈ calls, call.UnderLock := by
  refine ⟨by decide, fun hall => ?_⟩
  have hunder := hall _ (List.mem_cons_self ..)
  exact absurd hunder.1 (by decide)

end Cache
end Folio
