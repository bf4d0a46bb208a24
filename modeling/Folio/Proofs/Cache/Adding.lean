import Folio.Proofs.Cache.Eligibility
import Folio.Proofs.Cache.Naming

/-! # What adding an object comes to

An object that is added takes the place of the one cached under its identity, or a free place;
or another object leaves for it, or the cache grows, or it is turned away.  **`add_outcomes`**
says which of these happens when, and what is left of the order of use, of the entries and of
the capacity in each case.  An object that is turned away leaves all of these as they were, and
the names and the budget too.
-/
namespace Folio

open Cache (Added Cacheable FlushHook Handle Lasting Result Workspace)

namespace Cache

variable {σ α : Type}

/-! ## Places -/

/-- What came of an addition, except for capacity and budget. -/
structure Result.Is (r : Result σ α (Except Error Added)) (value : Except Error Added)
    (left : List Handle) (ids : List ObjectId) (entries : Table ObjectId Handle) : Prop where
  value_eq : r.value = value
  left_eq : r.left = left
  ids_eq : r.cache.ids = ids
  entries_eq : r.cache.entries = entries

section Places
variable {c : Cache σ α} {w : Workspace σ α} {h : Handle} {id : ObjectId}

theorem Sound.ids_entered (hs : Sound c) (hnew : c.entries.get? id = none) (h : Handle) :
    (c.entered id h).ids = c.ids ++ [id] :=
  (hs.threads.pushBack (hs.not_mem_ids hnew)).toList_eq

/-- **An object that goes as it came** leaves the cached identities and their order as they were. -/
theorem Sound.drop_entered (hs : Sound c) (hnew : c.entries.get? id = none) (h : Handle) :
    ((c.entered id h).drop id).ids = c.ids ∧ ((c.entered id h).drop id).entries = c.entries := by
  have hout := hs.not_mem_ids hnew
  have hthreads := (hs.threads.pushBack hout).unlink id
  rw [List.erase_append_right _ hout, List.erase_cons_head, List.append_nil] at hthreads
  exact ⟨hthreads.toList_eq, Table.erase_insert_new hnew h⟩

/-- Why a cache does not grow: it is as large as it may be, or the budget gives it nothing. -/
theorem grow_refused (hgrow : (c.grow w).1 = false) :
    c.settings.maxCapacity ≤ c.capacity ∨
      (c.attached = true ∧
        w.budget.grow c.name c.capacity (c.settings.grown c.capacity) = none) := by
  unfold grow at hgrow
  by_cases hle : c.settings.grown c.capacity ≤ c.capacity
  · left
    simp only [Settings.grown] at hle
    omega
  · simp only [if_neg hle] at hgrow
    split at hgrow
    · rename_i hattached
      split at hgrow
      · cases hgrow
      · exact Or.inr ⟨hattached, ‹_›⟩
    · cases hgrow

variable [Cacheable α]

/-- **Where another object leaves**, the cache may grow as well. -/
theorem Sound.makeRoom_found (hs : Sound c) {k : ObjectId}
    (hvalue : (c.evictionPass (some id) w).value = some k) (h : Handle) :
    ∃ g, k ≠ id ∧ k ∈ c.ids ∧ c.entries.get? k = some g ∧
      (c.makeRoom id h w).Is (.ok .cached) [g] (c.ids.erase k) (c.entries.erase k) ∧
      c.capacity ≤ (c.makeRoom id h w).cache.capacity := by
  rcases evictionPass_cases c (some id) w with ⟨w', -, hpass⟩ | ⟨k', g, w', hm, hf, hpass⟩
  · rw [hpass] at hvalue
    cases hvalue
  rw [hpass] at hvalue
  obtain rfl : k' = k := Option.some.inj hvalue
  have hids := hs.ids_evicted k'
  refine ⟨g, fun heq => hf.other (congrArg some heq.symm), hm, hf.entry, ?_⟩
  unfold Cache.makeRoom
  simp only [hpass]
  split
  · rcases grow_cases (c.evicted k') w' with hgrow | ⟨n, b, hlt, -, -, -, hgrow⟩
    · rw [hgrow]
      exact ⟨⟨rfl, rfl, hids, rfl⟩, Nat.le_refl _⟩
    · rw [hgrow]
      exact ⟨⟨rfl, rfl, hids, rfl⟩, Nat.le_of_lt hlt⟩
  · exact ⟨⟨rfl, rfl, hids, rfl⟩, Nat.le_refl _⟩

/-- **Where nobody leaves**, the cache grows, or the new object goes again. -/
theorem makeRoom_stuck (hvalue : (c.evictionPass (some id) w).value = none) (h : Handle) :
    ((c.makeRoom id h w).Is (.ok .cached) [] c.ids c.entries ∧
        c.capacity < (c.makeRoom id h w).cache.capacity ∧
        (c.makeRoom id h w).cache.capacity ≤ c.settings.maxCapacity) ∨
      ((c.settings.maxCapacity ≤ c.capacity ∨ (c.attached = true ∧
          w.budget.grow c.name c.capacity (c.settings.grown c.capacity) = none)) ∧
        (c.makeRoom id h w).Is (.error (.capacityExhausted c.name c.capacity (c.drop id).size)) [h]
          (c.drop id).ids (c.drop id).entries ∧
        (c.makeRoom id h w).cache.capacity = c.capacity ∧
        (c.makeRoom id h w).workspace.budget = w.budget) := by
  rcases evictionPass_cases c (some id) w with ⟨w', hr, hpass⟩ | ⟨k, g, w', -, -, hpass⟩
  · unfold makeRoom
    simp only [hpass]
    rcases grow_cases c w' with hgrow | ⟨n, b, hlt, hmax, -, -, hgrow⟩
    · have hwhy := grow_refused (congrArg Prod.fst hgrow)
      rw [hr.budget_eq] at hwhy
      rw [hgrow]
      exact Or.inr ⟨hwhy, ⟨rfl, rfl, rfl, rfl⟩, rfl, hr.budget_eq⟩
    · rw [hgrow]
      exact Or.inl ⟨⟨rfl, rfl, rfl, rfl⟩, hlt, hmax⟩
  · rw [hpass] at hvalue
    cases hvalue

end Places

/-! ## Adding -/

variable [Cacheable α]

/-- The beginning of the pass that makes room for a new object. -/
def crowding (c : Cache σ α) (w : Workspace σ α) (h : Handle) (refCount : UInt32)
    (id : ObjectId) : Start σ α where
  cache := c.entered id h
  exclude := some id
  workspace := w.modify h ({ · with refCount })

/-- **What adding the instance `h` of the object `id` comes to.** -/
structure Adds (c : Cache σ α) (w : Workspace σ α) (h : Handle) (refCount : UInt32)
    (id : ObjectId) : Prop where
  /-- It takes the place of another instance of the object, and becomes the most recently used. -/
  replaces : ∀ previous, c.entries.get? id = some previous →
    (c.add h refCount w).Is (.ok .replaced) [previous] (c.ids.erase id ++ [id])
      (c.entries.insert id h) ∧
    (c.add h refCount w).cache.capacity = c.capacity
  /-- It takes a free place. -/
  fits : c.entries.get? id = none → c.size < c.capacity →
    (c.add h refCount w).Is (.ok .cached) [] (c.ids ++ [id]) (c.entries.insert id h) ∧
    (c.add h refCount w).cache.capacity = c.capacity
  /-- Where no place is free, the object that the pass takes out leaves for it; or the cache grows
  within its maximum; or it is turned away, if nobody can leave and the cache is as large as it may
  be or gets nothing from the budget. -/
  crowds : c.entries.get? id = none → c.size = c.capacity →
    (∃ k g, (c.crowding w h refCount id).pass.value = some k ∧ k ≠ id ∧
      c.entries.get? k = some g ∧
      (c.add h refCount w).Is (.ok .cached) [g] (c.ids.erase k ++ [id])
        ((c.entries.insert id h).erase k) ∧
      c.capacity ≤ (c.add h refCount w).cache.capacity) ∨
    ((c.crowding w h refCount id).pass.value = none ∧
      (c.add h refCount w).Is (.ok .cached) [] (c.ids ++ [id]) (c.entries.insert id h) ∧
      c.capacity < (c.add h refCount w).cache.capacity ∧
      (c.add h refCount w).cache.capacity ≤ c.settings.maxCapacity) ∨
    ((c.crowding w h refCount id).pass.value = none ∧
      (c.settings.maxCapacity ≤ c.capacity ∨ (c.attached = true ∧
        w.budget.grow c.name c.capacity (c.settings.grown c.capacity) = none)) ∧
      (c.add h refCount w).Is (.error (.capacityExhausted c.name c.capacity c.size)) [h] c.ids
        c.entries ∧
      (c.add h refCount w).cache.capacity = c.capacity ∧
      (c.add h refCount w).workspace.budget = w.budget)

section Adding
variable {c : Cache σ α} {w : Workspace σ α} {h : Handle} {id : ObjectId}

theorem Sound.adds (hs : Sound c) (hop : c.operational = true) (hid : w.identity? h = some id)
    (refCount : UInt32) : c.Adds w h refCount id := by
  have hadd := add_eq c h refCount w
  simp only [hop, hid] at hadd
  refine ⟨fun previous hold => ?_, fun hnew hroom => ?_, fun hnew hfull => ?_⟩
  · simp only [hold] at hadd
    rw [hadd]
    exact ⟨⟨rfl, rfl, (hs.threads.touch (hs.mem_ids hold)).toList_eq, rfl⟩, rfl⟩
  · have hsize : (c.entered id h).size ≤ c.capacity := by
      rw [size_entered hnew h]
      exact hroom
    simp only [hnew, if_pos hsize] at hadd
    rw [hadd]
    exact ⟨⟨rfl, rfl, hs.ids_entered hnew h, rfl⟩, rfl⟩
  · have hsize : ¬ (c.entered id h).size ≤ c.capacity := by
      rw [size_entered hnew h]
      omega
    simp only [hnew, if_neg hsize] at hadd
    rw [hadd]
    have hs' := hs.entered hnew h
    have hids := hs.ids_entered hnew h
    cases hvalue : (c.crowding w h refCount id).pass.value with
    | some k =>
      obtain ⟨g, hne, hmem, hget, his, hcapacity⟩ := hs'.makeRoom_found hvalue h
      rw [hids] at hmem his
      have hk : k ∈ c.ids := (List.mem_append.1 hmem).resolve_right fun hm =>
        hne (List.mem_singleton.1 hm)
      rw [List.erase_append_left _ hk] at his
      rw [(c.enters_entered id h).get?_of_ne hne] at hget
      exact Or.inl ⟨k, g, rfl, hne, hget, his, hcapacity⟩
    | none =>
      obtain ⟨hdropIds, hdropEntries⟩ := hs.drop_entered hnew h
      have hdropSize : ((c.entered id h).drop id).size = c.size := congrArg Table.size hdropEntries
      rcases makeRoom_stuck (c := c.entered id h) hvalue h with
        ⟨his, hgrown⟩ | ⟨hwhy, his, hcapacity, hbudget⟩
      · rw [hids] at his
        exact Or.inr (Or.inl ⟨rfl, his, hgrown⟩)
      · rw [hdropIds, hdropEntries, hdropSize] at his
        exact Or.inr (Or.inr ⟨rfl, hwhy, his, hcapacity, hbudget⟩)

/-- Who is turned away is new, and is the only one to go; the cache is as if it had been entered and
taken out again. -/
theorem add_of_error {refCount : UInt32} {e : Error}
    (herror : (c.add h refCount w).value = .error e) :
    ∃ id, w.identity? h = some id ∧ c.entries.get? id = none ∧
      (c.add h refCount w).left = [h] ∧ (c.add h refCount w).cache = (c.entered id h).drop id := by
  rcases add_cases c h refCount w with ⟨-, hadd⟩ | ⟨id, w', -, hid, -, hadd⟩
  · rw [hadd] at herror
    cases herror
  rcases hadd with ⟨previous, -, hadd⟩ | ⟨hnew, ⟨-, hadd⟩ | ⟨-, hadd⟩⟩
  · rw [hadd] at herror
    cases herror
  · rw [hadd] at herror
    cases herror
  rw [hadd] at herror ⊢
  rcases makeRoom_cases (c.entered id h) id h w' with
    ⟨k, g, w'', -, -, hroom | ⟨n, b, -, -, hroom⟩⟩ | ⟨w'', -, ⟨n, b, -, -, hroom⟩ | hroom⟩
  -- an error comes out of the last of the four exits only
  all_goals rw [hroom] at herror ⊢
  · cases herror
  · cases herror
  · cases herror
  · exact ⟨id, hid, hnew, rfl, rfl⟩

end Adding

end Cache

namespace NamedCache

variable {σ α : Type} [Cacheable α] {c : NamedCache σ α} {names : Table String ObjectId}
  {w : Workspace σ α} {h : Handle} {id : ObjectId} {settings : Cache.Settings}
  {hook : Option (FlushHook σ α)} {rule : NamedCache σ α → Workspace σ α → Operation → Prop}

theorem value_add (c : NamedCache σ α) (h : Handle) (refCount : UInt32) (w : Workspace σ α) :
    (c.add h refCount w).value = (c.base.add h refCount w).value := by
  unfold add followUp
  dsimp only
  split <;> rfl

/-- A cache with names is as tidy as one without. -/
theorem Run.tidy (run : Run settings hook rule c w) : c.base.Tidy := by
  induction run with
  | new name w => exact Cache.tidy_newHooked name settings hook
  | attach before registered ih =>
    obtain ⟨b, rfl, -⟩ := attach_eq registered
    exact ⟨ih.toSound.congr rfl rfl, ih.size_le⟩
  | @perform c w before op permitted ih =>
    rw [(c.perform_base w op).1]
    cases op.base? c with
    | none => exact ih
    | some o => exact (ih.perform w o).1
  | meanwhile before kept ih => exact ih

/-- Whoever is found by no name takes none with him. -/
theorem unindex_absent (hnone : ∀ n, names.get? n ≠ some id) {n : String}
    (htag : w.label? tag h = some (n, id)) : unindex w.pool names h = names := by
  obtain ⟨i, hi, hti⟩ := Option.map_eq_some_iff.1 htag
  obtain ⟨-, rfl⟩ := Prod.mk.inj hti
  unfold unindex
  rw [hi]
  exact if_neg (hnone _)

/-- **An object that is turned away leaves the names as they were.** -/
theorem Indexed.names_add_error {strict : Prop} (hi : Indexed strict none c.names c.base w)
    (hl : Lasting (tag (α := α)) c.base.flushHook) {refCount : UInt32} {e : Cache.Error}
    (herror : (c.add h refCount w).value = .error e) :
    (c.add h refCount w).cache.names = c.names := by
  rw [value_add] at herror
  obtain ⟨id, hid, hnew, hleft, -⟩ := Cache.add_of_error herror
  refine names_add_refused ?_ (Or.inr ⟨e, herror⟩)
  obtain ⟨n, htag⟩ := tag?_of_identity? hid
  have htag' := Cache.retains_add hl h refCount w h _ htag
  have hnone (m : String) : c.names.get? m ≠ some id := fun hm => by
    obtain ⟨g, hget, -⟩ := hi.backed m id hm
    rw [hnew] at hget
    cases hget
  rw [hleft]
  exact unindex_absent hnone htag'

end NamedCache

/-- **What adding an object comes to**, in every state that a cache in operation goes through, with
names or without.  Names make no difference to it; and where objects keep their names, an object
that is turned away leaves the index as it was. -/
theorem Cache.add_outcomes {σ α : Type} [Cacheable α] {settings : Cache.Settings}
    {hook : Option (FlushHook σ α)} (h : Handle) (refCount : UInt32) (id : ObjectId) :
    (∀ (c : Cache σ α) (w : Workspace σ α), Cache.Run settings hook c w →
      c.operational = true → w.identity? h = some id →
      c.size ≤ c.capacity ∧ c.Adds w h refCount id) ∧
    ∀ (rule : NamedCache σ α → Workspace σ α → NamedCache.Operation → Prop) (c : NamedCache σ α)
      (w : Workspace σ α), NamedCache.Run settings hook rule c w →
      Lasting (NamedCache.tag (α := α)) hook → c.base.operational = true →
      w.identity? h = some id →
      c.base.size ≤ c.base.capacity ∧ c.base.Adds w h refCount id ∧
        (c.add h refCount w).value = (c.base.add h refCount w).value ∧
        (c.add h refCount w).cache.base = (c.base.add h refCount w).cache ∧
        (c.add h refCount w).workspace = (c.base.add h refCount w).workspace ∧
        ∀ e, (c.add h refCount w).value = .error e →
          (c.add h refCount w).cache.names = c.names := by
  refine ⟨fun c w run hop hid => ?_, fun rule c w run hl hop hid => ?_⟩
  · obtain ⟨htidy, -⟩ := run.bounds
    exact ⟨htidy.size_le, htidy.toSound.adds hop hid refCount⟩
  · have htidy := run.tidy
    obtain ⟨hindexed, hhook⟩ := run.indexed hl
    obtain ⟨hbase, hworkspace⟩ := c.add_base h refCount w
    exact ⟨htidy.size_le, htidy.toSound.adds hop hid refCount, c.value_add h refCount w, hbase,
      hworkspace, fun e herror => hindexed.names_add_error (hhook ▸ hl) herror⟩

/-- A cache with names for one collection, which is cached with some pins. -/
def NamedCache.full (pins : UInt32) : NamedCache Store Record × Workspace Store Record :=
  (NamedCache.newHooked "collections" { capacity := 1, maxCapacity := 1 }
    (some Store.flushHook)).perform Cache.twoCollections (.add 0 pins)

/-- A collection without pins leaves for another one; a collection with a pin keeps it out. -/
theorem Cache.add_outcomes_full :
    ((NamedCache.full 0).1.base.Adds (NamedCache.full 0).2 1 0 8 ∧
      ((NamedCache.full 0).1.base.add 1 0 (NamedCache.full 0).2).cache.ids = [8]) ∧
    (NamedCache.full 1).1.base.Adds (NamedCache.full 1).2 1 0 8 ∧
      ((NamedCache.full 1).1.add 1 0 (NamedCache.full 1).2).value =
        .error (.capacityExhausted "collections" 1 1) ∧
      ((NamedCache.full 1).1.add 1 0 (NamedCache.full 1).2).cache.names =
        (NamedCache.full 1).1.names := by
  have bare : Cache.Run { capacity := 1, maxCapacity := 1 } (some Store.flushHook)
      (NamedCache.full 0).1.base (NamedCache.full 0).2 :=
    (Cache.Run.new "collections" Cache.twoCollections).perform (.add 0 0)
  have run : NamedCache.Run { capacity := 1, maxCapacity := 1 } (some Store.flushHook)
      (fun _ _ _ => True) (NamedCache.full 1).1 (NamedCache.full 1).2 :=
    (NamedCache.Run.new "collections" Cache.twoCollections).perform (.add 0 1) trivial
  obtain ⟨-, hbare⟩ := (Cache.add_outcomes 1 0 8).1 _ _ bare rfl rfl
  obtain ⟨-, hnamed, hvalue, -, -, hnames⟩ :=
    (Cache.add_outcomes 1 0 8).2 _ _ _ run NamedCache.lasting_tag_record rfl rfl
  -- growth is measured in floating point, so the refusal is read off the outcomes
  have hrefused : ((NamedCache.full 1).1.add 1 0 (NamedCache.full 1).2).value =
      .error (.capacityExhausted "collections" 1 1) := by
    rcases hnamed.crowds rfl rfl with ⟨k, g, hpass, -⟩ | ⟨-, -, hlt, hle⟩ | ⟨-, -, his, -⟩
    · cases hpass
    · exact absurd (Nat.lt_of_lt_of_le hlt hle) (Nat.lt_irrefl 1)
    · exact hvalue.trans his.value_eq
  exact ⟨⟨hbare, by decide⟩, hnamed, hrefused, hnames _ hrefused⟩

end Folio
