import Folio.Proofs.Cache.Operation
import Folio.Proofs.Cache.Recency

/-! # Entries and order in step

A cache keeps two structures in step, its entries and its recency order, and promises a
bound on their number.  `Sound c` says that they are in step, and `Tidy c` adds the bound.
Between the entry of a new object and the end of `makeRoom` a cache is sound and one
object too large, so the bound is settled at each of the exits of `makeRoom`, and
soundness once for each way of changing the entries.
-/
namespace Folio.Cache

variable {σ α : Type} [Cacheable α]

/-! ## Soundness -/

/-- **A sound cache.**  The recency order holds the identities of the entries, each once, and
nothing else. -/
structure Sound (c : Cache σ α) : Prop where
  threads : c.recency.Threads c.ids
  mem_ids_iff : ∀ id, id ∈ c.ids ↔ c.contains id = true

section Changes
variable {c c' : Cache σ α} {h : Handle} {id : ObjectId}

omit [Cacheable α]

/-- Soundness is read off the sequence that the recency order represents. -/
theorem Sound.of_threads {l : List ObjectId} (hl : c.recency.Threads l)
    (hmem : ∀ id, id ∈ l ↔ c.contains id = true) : Sound c := by
  have hids : c.ids = l := hl.toList_eq
  exact ⟨by rw [hids]; exact hl, by rw [hids]; exact hmem⟩

/-- Soundness concerns the entries and their order. -/
theorem Sound.congr (hs : Sound c) (hentries : c'.entries = c.entries)
    (hrecency : c'.recency = c.recency) : Sound c' := by
  refine .of_threads (hrecency ▸ hs.threads) fun id => ?_
  rw [hs.mem_ids_iff id, contains, contains, hentries]

theorem Sound.mem_ids (hs : Sound c) (hget : c.entries.get? id = some h) : id ∈ c.ids :=
  (hs.mem_ids_iff id).2 (by rw [contains, Table.contains_eq, hget]; rfl)

/-- The order of use lists the keys of the entries. -/
theorem Sound.ids_perm (hs : Sound c) : c.ids.Perm c.entries.keys :=
  (List.perm_ext_iff_of_nodup hs.threads.nodup c.entries.keys_nodup).2 fun id =>
    (hs.mem_ids_iff id).trans (c.entries.mem_keys_iff id).symm

theorem Sound.length_ids (hs : Sound c) : c.ids.length = c.size :=
  hs.ids_perm.length_eq.trans c.entries.length_keys

theorem Sound.get?_isSome (hs : Sound c) (hid : id ∈ c.ids) : ∃ h, c.entries.get? id = some h :=
  Option.isSome_iff_exists.1 ((hs.mem_ids_iff id).1 hid)

theorem Sound.touch (hs : Sound c) (hget : c.entries.get? id = some h) :
    Sound { c with recency := c.recency.touch id } := by
  have hid := hs.mem_ids hget
  refine .of_threads (hs.threads.touch hid) fun k => ?_
  refine Iff.trans ?_ (hs.mem_ids_iff k)
  rw [List.mem_append, List.mem_singleton]
  by_cases hk : k = id
  · simp [hk, hid]
  · rw [List.mem_erase_of_ne hk]
    simp [hk]

theorem Sound.drop (hs : Sound c) (id : ObjectId) : Sound (c.drop id) := by
  refine .of_threads (hs.threads.unlink id) fun k => ?_
  rw [hs.threads.nodup.mem_erase_iff, hs.mem_ids_iff k]
  simp only [contains, Cache.drop, Table.contains_eq, Table.get?_erase]
  by_cases hk : k = id <;> simp [hk]

theorem Sound.not_mem_ids (hs : Sound c) (hnew : c.entries.get? id = none) : id ∉ c.ids := by
  rw [hs.mem_ids_iff, contains, Table.contains_eq, hnew]
  exact Bool.false_ne_true

theorem Sound.entered (hs : Sound c) (hnew : c.entries.get? id = none) (h : Handle) :
    Sound (c.entered id h) := by
  refine .of_threads (hs.threads.pushBack (hs.not_mem_ids hnew)) fun k => ?_
  rw [List.mem_append, List.mem_singleton, hs.mem_ids_iff k]
  simp only [contains, Cache.entered, Table.contains_eq, Table.get?_insert]
  by_cases hk : k = id <;> simp [hk]

theorem Sound.insert (hs : Sound c) {previous : Handle} (hold : c.entries.get? id = some previous)
    (h : Handle) : Sound { c with entries := c.entries.insert id h } := by
  refine ⟨hs.threads, fun k => (hs.mem_ids_iff k).trans ?_⟩
  simp only [contains, Table.contains_eq, Table.get?_insert]
  by_cases hk : k = id <;> simp [hk, hold]

theorem Sound.evicted (hs : Sound c) (id : ObjectId) : Sound (c.evicted id) :=
  (hs.drop id).congr rfl rfl

theorem size_evicted (hget : c.entries.get? id = some h) : (c.evicted id).size + 1 = c.size :=
  size_drop hget

end Changes

/-! ## The bounds -/

/-- **A tidy cache** is sound and holds no more objects than it may. -/
structure Tidy (c : Cache σ α) : Prop extends Sound c where
  size_le : c.size ≤ c.capacity

/-- The capacity is within the maximum that is set for the cache. -/
def Within (c : Cache σ α) : Prop := c.capacity ≤ c.settings.maxCapacity

/-- What evictions leave of a tidy cache: it may hold as many objects as before. -/
structure Thinned (c c' : Cache σ α) : Prop extends Sound c' where
  size_le : c'.size ≤ c.size
  capacity_eq : c'.capacity = c.capacity
  settings_eq : c'.settings = c.settings

section Bounds
variable {c c' : Cache σ α} {w : Workspace σ α} {h : Handle} {id : ObjectId}

omit [Cacheable α] in
theorem Thinned.evicted (ht : Thinned c c') (hid : id ∈ c'.ids) : Thinned c (c'.evicted id) := by
  obtain ⟨h, hget⟩ := ht.get?_isSome hid
  have hsize := size_evicted hget
  exact ⟨ht.toSound.evicted id, by have := ht.size_le; omega, ht.capacity_eq, ht.settings_eq⟩

omit [Cacheable α] in
theorem Thinned.tidy (ht : Thinned c c') (hc : Tidy c) : Tidy c' :=
  ⟨ht.toSound, by have := ht.size_le; have := hc.size_le; have := ht.capacity_eq; omega⟩

omit [Cacheable α] in
theorem Sound.thinned (hs : Sound c) : Thinned c c := ⟨hs, Nat.le_refl _, rfl, rfl⟩

theorem Sound.evict (hs : Sound c) (w : Workspace σ α) : Thinned c (c.evict w).cache :=
  evictionPass_induction (P := fun c' _ => Thinned c c') (fun _ _ => hs.thinned)
    fun _ _ _ hm _ => hs.thinned.evicted hm

theorem Sound.evictUpTo (hs : Sound c) (w : Workspace σ α) (count : Nat) :
    Thinned c (c.evictUpTo w count).cache :=
  evictUpTo_induction (P := fun c' _ => Thinned c c') (fun _ _ _ ht _ => ht)
    (fun _ _ _ _ _ ht hm _ => ht.evicted hm) hs.thinned count

/-- **Each exit of `makeRoom` settles a cache that is one object too large**, and leaves its capacity
alone or raises it within the maximum. -/
theorem Sound.makeRoom (hs : Sound c) (hget : c.entries.get? id = some h)
    (hover : c.size ≤ c.capacity + 1) (w : Workspace σ α) :
    Tidy (c.makeRoom id h w).cache ∧ (Within c → Within (c.makeRoom id h w).cache) := by
  rcases makeRoom_cases c id h w with
    ⟨id', h', w', hm, hf, hroom | ⟨n, b, hlt, hmax, hroom⟩⟩ |
      ⟨w', hr, ⟨n, b, hlt, hmax, hroom⟩ | hroom⟩
  all_goals simp only [hroom]
  -- the four exits: evicted, evicted and grown, grown, taken out again
  · have hsize := size_evicted hf.entry
    refine ⟨⟨hs.evicted id', ?_⟩, fun hw => hw⟩
    show (c.evicted id').size ≤ c.capacity
    omega
  · have hsize := size_evicted hf.entry
    refine ⟨⟨(hs.evicted id').congr rfl rfl, ?_⟩, fun _ => hmax⟩
    show (c.evicted id').size ≤ n
    omega
  · exact ⟨⟨hs.congr rfl rfl, show c.size ≤ n by omega⟩, fun _ => hmax⟩
  · have hsize := size_drop hget
    refine ⟨⟨hs.drop id, ?_⟩, fun hw => hw⟩
    show (c.drop id).size ≤ c.capacity
    omega

theorem Tidy.add (ht : Tidy c) (h : Handle) (refCount : UInt32) (w : Workspace σ α) :
    Tidy (c.add h refCount w).cache ∧ (Within c → Within (c.add h refCount w).cache) := by
  rcases add_cases c h refCount w with ⟨-, hadd⟩ | ⟨id, w', -, -, -, ⟨previous, hold, hadd⟩ | hadd⟩
  · rw [hadd]
    exact ⟨ht, fun hw => hw⟩
  · rw [hadd]
    have hsize : (c.entries.insert id h).size = c.entries.size := Table.size_insert_old hold h
    refine ⟨⟨(ht.toSound.touch hold).insert hold h, ?_⟩, fun hw => hw⟩
    exact Nat.le_trans (Nat.le_of_eq hsize) ht.size_le
  · obtain ⟨hnew, ⟨hsize, hadd⟩ | ⟨-, hadd⟩⟩ := hadd
    · rw [hadd]
      exact ⟨⟨ht.toSound.entered hnew h, hsize⟩, fun hw => hw⟩
    · rw [hadd]
      have hin : (c.entered id h).entries.get? id = some h := by simp [Cache.entered]
      have hover : (c.entered id h).size ≤ (c.entered id h).capacity + 1 := by
        rw [size_entered hnew h]
        exact Nat.succ_le_succ ht.size_le
      exact (ht.toSound.entered hnew h).makeRoom hin hover w'

omit [Cacheable α] in
theorem Tidy.get (ht : Tidy c) (id : ObjectId) :
    Tidy (c.get id).2 ∧ (Within c → Within (c.get id).2) := by
  unfold Cache.get
  cases hget : c.entries.get? id with
  | none => exact ⟨⟨ht.toSound.congr rfl rfl, ht.size_le⟩, fun hw => hw⟩
  | some h => exact ⟨⟨(ht.toSound.touch hget).congr rfl rfl, ht.size_le⟩, fun hw => hw⟩

omit [Cacheable α] in
theorem Tidy.remove (ht : Tidy c) (id : ObjectId) :
    Tidy (c.remove id).2 ∧ (Within c → Within (c.remove id).2) := by
  unfold Cache.remove
  cases hget : c.entries.get? id with
  | none => exact ⟨ht, fun hw => hw⟩
  | some h =>
    have hsize := size_drop hget
    have hle := ht.size_le
    refine ⟨⟨ht.toSound.drop id, ?_⟩, fun hw => hw⟩
    show (c.drop id).size ≤ c.capacity
    omega

/-- Growing raises the maximum along with the capacity; shrinking stops at the number of objects that
are left. -/
theorem Tidy.resize (ht : Tidy c) (capacity : Nat) (w : Workspace σ α) :
    Tidy (c.resize capacity w).cache ∧ (Within c → Within (c.resize capacity w).cache) := by
  have hold := ht.size_le
  rcases resize_cases c capacity w with
    ⟨e, hresize⟩ | ⟨b, hle, hresize⟩ | ⟨_, b, hlt, rfl, -, hcache, -⟩
  · rw [hresize]
    exact ⟨ht, fun hw => hw⟩
  · rw [hresize]
    refine ⟨⟨ht.toSound.congr rfl rfl, ?_⟩, fun _ => ?_⟩
    · exact Nat.le_trans hold hle
    · exact Nat.le_max_right ..
  -- objects that cannot leave stop the capacity above its target
  · have hthin := ht.toSound.evictUpTo w (c.size - capacity)
    have hsize := hthin.size_le
    rw [hcache]
    refine ⟨⟨hthin.toSound.congr rfl rfl, Nat.le_max_right ..⟩, fun hw => ?_⟩
    show max capacity (c.evictUpTo w (c.size - capacity)).cache.size ≤
      (c.evictUpTo w (c.size - capacity)).cache.settings.maxCapacity
    rw [hthin.settings_eq]
    unfold Within at hw
    omega

/-- **Every operation leaves a tidy cache tidy**, and its capacity within the maximum. -/
theorem Tidy.perform (ht : Tidy c) (w : Workspace σ α) (op : Operation) :
    Tidy (c.perform w op).1 ∧ (Within c → Within (c.perform w op).1) := by
  cases op with
  | get id => exact ht.get id
  | add h refCount => exact ht.add h refCount w
  | remove id => exact ht.remove id
  | evict =>
    have hthin := ht.toSound.evict w
    refine ⟨hthin.tidy ht, fun hw => ?_⟩
    unfold Within at hw ⊢
    simp only [Cache.perform, hthin.capacity_eq, hthin.settings_eq]
    exact hw
  | resize capacity => exact ht.resize capacity w
  | setOperational operational => exact ⟨⟨ht.toSound.congr rfl rfl, ht.size_le⟩, fun hw => hw⟩

end Bounds

end Folio.Cache
