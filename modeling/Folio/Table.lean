/-!
Finite maps as tables of entries. A table keeps its entries in the order of their last insertion
and has one entry for each key, so its size is the number of its keys.
-/
namespace Folio

/-- A finite map. -/
structure Table (κ υ : Type) where
  entries : List (κ × υ) := []
  keys_nodup : (entries.map (·.1)).Nodup := by simp

namespace Table

variable {κ υ : Type}

instance : EmptyCollection (Table κ υ) := ⟨{ entries := [] }⟩

instance : Inhabited (Table κ υ) := ⟨{ entries := [] }⟩

/-- The keys, in the order of their last insertion. -/
def keys (t : Table κ υ) : List κ := t.entries.map (·.1)

/-- The values, in the order of their last insertion. -/
def values (t : Table κ υ) : List υ := t.entries.map (·.2)

def size (t : Table κ υ) : Nat := t.entries.length

@[simp] theorem length_keys (t : Table κ υ) : t.keys.length = t.size := List.length_map _

def isEmpty (t : Table κ υ) : Bool := t.entries.isEmpty

/-- The entries that satisfy a test. -/
def filter (t : Table κ υ) (keep : κ → υ → Bool) : Table κ υ where
  entries := t.entries.filter fun (k, v) => keep k v
  keys_nodup := t.keys_nodup.sublist (List.filter_sublist.map _)

/-- Changes the value of one key in place, if it has one. -/
def modify [DecidableEq κ] (t : Table κ υ) (k : κ) (f : υ → υ) : Table κ υ where
  entries := t.entries.map fun (k', v) => (k', if k' = k then f v else v)
  keys_nodup := by
    have : (fun (e : κ × υ) => (e.1, if e.1 = k then f e.2 else e.2).1) = (·.1) := rfl
    simpa [List.map_map, Function.comp_def] using t.keys_nodup

variable [DecidableEq κ]

/-- The value of a key. -/
def get? (t : Table κ υ) (k : κ) : Option υ := t.entries.lookup k

def contains (t : Table κ υ) (k : κ) : Bool := (t.get? k).isSome

/-- The table without a key. -/
def erase (t : Table κ υ) (k : κ) : Table κ υ := t.filter fun k' _ => k' ≠ k

/-- The table with a value for a key, in place of the one it had. -/
def insert (t : Table κ υ) (k : κ) (v : υ) : Table κ υ where
  entries := (t.erase k).entries ++ [(k, v)]
  keys_nodup := by
    rw [List.map_append, List.nodup_append]
    refine ⟨(t.erase k).keys_nodup, by simp, ?_⟩
    intro a ha b hb
    simp only [erase, filter, List.mem_map, List.mem_filter] at ha
    simp only [List.map_cons, List.map_nil, List.mem_singleton] at hb
    obtain ⟨e, ⟨-, he⟩, rfl⟩ := ha
    simpa [hb] using he

/-! ### What the operations do to the values -/

@[simp] theorem get?_empty (k : κ) : (∅ : Table κ υ).get? k = none := rfl

/-- Filtering by the key hides that key and nothing else. -/
theorem lookup_filter_ne (entries : List (κ × υ)) (k k' : κ) :
    (entries.filter fun (e : κ × υ) => decide (e.1 ≠ k)).lookup k'
      = if k' = k then none else entries.lookup k' := by
  induction entries with
  | nil => grind
  | cons e es ih => by_cases he : e.1 = k <;> grind

@[simp, grind =] theorem get?_erase (t : Table κ υ) (k k' : κ) :
    (t.erase k).get? k' = if k' = k then none else t.get? k' :=
  lookup_filter_ne t.entries k k'

@[simp, grind =] theorem get?_insert (t : Table κ υ) (k k' : κ) (v : υ) :
    (t.insert k v).get? k' = if k' = k then some v else t.get? k' := by
  have h : (t.insert k v).get? k' = ((t.erase k).get? k').or ([(k, v)].lookup k') :=
    List.lookup_append
  rw [h, get?_erase]
  grind

/-- A value that is found after an insertion is the new one, or was found before. -/
theorem get?_insert_cases {t : Table κ υ} {k k' : κ} {v v' : υ}
    (h : (t.insert k v).get? k' = some v') : k' = k ∧ v' = v ∨ k' ≠ k ∧ t.get? k' = some v' := by
  rw [get?_insert] at h
  split at h
  · exact Or.inl ⟨‹_›, (Option.some.inj h).symm⟩
  · exact Or.inr ⟨‹_›, h⟩

@[simp, grind =] theorem get?_modify (t : Table κ υ) (k k' : κ) (f : υ → υ) :
    (t.modify k f).get? k' = if k' = k then (t.get? k').map f else t.get? k' := by
  simp only [get?, modify]
  induction t.entries with
  | nil => simp
  | cons e es ih =>
    obtain ⟨a, v⟩ := e
    simp only [List.map_cons, List.lookup_cons]
    by_cases ha : k' = a
    · by_cases hk : k' = k <;> simp_all
    · simp only [beq_eq_false_iff_ne.2 ha, ih]

/-- The keys are those that have a value. -/
theorem mem_keys_iff (t : Table κ υ) (k : κ) : k ∈ t.keys ↔ (t.get? k).isSome := by
  simp only [keys, get?]
  induction t.entries with
  | nil => grind
  | cons e es ih => grind

theorem mem_keys_of_get? {t : Table κ υ} {k : κ} {v : υ} (h : t.get? k = some v) : k ∈ t.keys :=
  (t.mem_keys_iff k).2 (by rw [h]; rfl)

theorem not_mem_keys_of_get? {t : Table κ υ} {k : κ} (h : t.get? k = none) : k ∉ t.keys := by
  rw [mem_keys_iff, h]
  exact Bool.false_ne_true

@[simp] theorem contains_eq (t : Table κ υ) (k : κ) : t.contains k = (t.get? k).isSome := rfl

/-! ### Sizes -/

theorem keys_erase (t : Table κ υ) (k : κ) : (t.erase k).keys = t.keys.erase k := by
  have hnodup : t.keys.Nodup := t.keys_nodup
  rw [hnodup.erase_eq_filter k]
  simp only [keys, erase, filter, List.filter_map]
  congr 1
  exact List.filter_congr fun e _ => by grind

/-- A key that has a value takes one place. -/
theorem size_erase {t : Table κ υ} {k : κ} {v : υ} (h : t.get? k = some v) :
    (t.erase k).size + 1 = t.size := by
  have hk := mem_keys_of_get? h
  have hpos := List.length_pos_of_mem hk
  rw [← length_keys, ← length_keys, keys_erase, List.length_erase_of_mem hk]
  omega

theorem size_insert (t : Table κ υ) (k : κ) (v : υ) :
    (t.insert k v).size = (t.erase k).size + 1 := List.length_append

theorem size_insert_new {t : Table κ υ} {k : κ} (h : t.get? k = none) (v : υ) :
    (t.insert k v).size = t.size + 1 := by
  rw [size_insert, ← length_keys, keys_erase, List.erase_of_not_mem (not_mem_keys_of_get? h),
    length_keys]

theorem size_insert_old {t : Table κ υ} {k : κ} {old : υ} (h : t.get? k = some old) (v : υ) :
    (t.insert k v).size = t.size := by
  rw [size_insert, size_erase h]

/-! ### Keys without a value -/

omit [DecidableEq κ] in
theorem ext_entries {s t : Table κ υ} (h : s.entries = t.entries) : s = t := by
  cases s
  cases t
  cases h
  rfl

theorem ne_of_get?_none {t : Table κ υ} {k : κ} (h : t.get? k = none) {e : κ × υ}
    (he : e ∈ t.entries) : e.1 ≠ k := by
  intro heq
  exact not_mem_keys_of_get? h (List.mem_map.2 ⟨e, he, heq⟩)

/-- Where there is nothing to strike out nothing changes. -/
theorem erase_absent {t : Table κ υ} {k : κ} (h : t.get? k = none) : t.erase k = t :=
  ext_entries (List.filter_eq_self.2 fun _ he => decide_eq_true (ne_of_get?_none h he))

theorem modify_absent {t : Table κ υ} {k : κ} (h : t.get? k = none) (f : υ → υ) :
    t.modify k f = t := by
  refine ext_entries ((List.map_congr_left fun e he => ?_).trans (List.map_id _))
  show (e.1, if e.1 = k then f e.2 else e.2) = e
  rw [if_neg (ne_of_get?_none h he)]

/-- A value that is struck out again leaves no trace. -/
theorem erase_insert_new {t : Table κ υ} {k : κ} (h : t.get? k = none) (v : υ) :
    (t.insert k v).erase k = t := by
  refine Eq.trans (ext_entries ?_) (erase_absent h)
  have hothers : (t.erase k).erase k = t.erase k := erase_absent (by simp)
  show ((t.erase k).entries ++ [(k, v)]).filter _ = _
  rw [List.filter_append, List.filter_cons_of_neg (by simp), List.filter_nil, List.append_nil]
  exact congrArg Table.entries hothers

/-! ### One entry among others -/

section Among
variable {t : Table κ υ} {k : κ} {v : υ} {before after : List (κ × υ)}

omit [DecidableEq κ] in
/-- No other entry has the same key. -/
theorem ne_of_perm (h : t.entries.Perm (before ++ (k, v) :: after)) {e : κ × υ}
    (he : e ∈ before ++ after) : e.1 ≠ k := by
  have hperm := (h.trans List.perm_middle).map (·.1)
  have hnodup : ((k, v) :: (before ++ after)).map (·.1) |>.Nodup := hperm.nodup_iff.1 t.keys_nodup
  rw [List.map_cons, List.nodup_cons] at hnodup
  intro heq
  exact hnodup.1 (List.mem_map.2 ⟨e, he, heq⟩)

theorem get?_of_perm (h : t.entries.Perm (before ++ (k, v) :: after)) : t.get? k = some v := by
  have hmem : (k, v) ∈ t.entries := h.mem_iff.2 (by simp)
  obtain ⟨front, back, hentries⟩ := List.append_of_mem hmem
  refine List.lookup_eq_some_iff.2 ⟨front, back, hentries, fun e he => ?_⟩
  have hne := ne_of_perm (List.Perm.of_eq hentries) (List.mem_append_left back he)
  simpa using Ne.symm hne

theorem perm_erase (h : t.entries.Perm (before ++ (k, v) :: after)) :
    (t.erase k).entries.Perm (before ++ after) := by
  have hperm := (h.trans List.perm_middle).filter fun e => decide (e.1 ≠ k)
  rw [List.filter_cons_of_neg (by simp)] at hperm
  have hothers : (before ++ after).filter (fun e => decide (e.1 ≠ k)) = before ++ after :=
    List.filter_eq_self.2 fun e he => decide_eq_true (ne_of_perm h he)
  rwa [hothers] at hperm

/-- A new value takes the place of the old one. -/
theorem perm_insert (h : t.entries.Perm (before ++ (k, v) :: after)) (new : υ) :
    (t.insert k new).entries.Perm (before ++ (k, new) :: after) :=
  ((perm_erase h).append_right [(k, new)]).trans
    ((List.perm_append_singleton (k, new) _).trans List.perm_middle.symm)

theorem perm_insert_new (h : t.get? k = none) (v : υ) :
    (t.insert k v).entries.Perm ((k, v) :: t.entries) := by
  show ((t.erase k).entries ++ [(k, v)]).Perm _
  rw [erase_absent h]
  exact List.perm_append_singleton (k, v) _

theorem perm_modify (h : t.entries.Perm (before ++ (k, v) :: after)) (f : υ → υ) :
    (t.modify k f).entries.Perm (before ++ (k, f v) :: after) := by
  have hperm := (h.trans List.perm_middle).map fun e => (e.1, if e.1 = k then f e.2 else e.2)
  rw [List.map_cons, if_pos rfl] at hperm
  have hothers : (before ++ after).map (fun e => (e.1, if e.1 = k then f e.2 else e.2)) =
      before ++ after := by
    refine (List.map_congr_left fun e he => ?_).trans (List.map_id _)
    rw [if_neg (ne_of_perm h he)]
    rfl
  rw [hothers] at hperm
  exact hperm.trans List.perm_middle.symm

end Among

/-! ### Values as keys -/

theorem mem_entries_iff (t : Table κ υ) (k : κ) (v : υ) :
    (k, v) ∈ t.entries ↔ t.get? k = some v := by
  constructor
  · intro h
    obtain ⟨before, after, hentries⟩ := List.append_of_mem h
    exact get?_of_perm (.of_eq hentries)
  · intro h
    obtain ⟨before, after, hentries, -⟩ := List.lookup_eq_some_iff.1 h
    simp [hentries]

/-- Only what passes a test is found after it. -/
theorem get?_filter_iff (t : Table κ υ) (keep : κ → υ → Bool) (k : κ) (v : υ) :
    (t.filter keep).get? k = some v ↔ t.get? k = some v ∧ keep k v = true := by
  rw [← mem_entries_iff, ← mem_entries_iff]
  exact List.mem_filter

theorem mem_values_iff (t : Table κ υ) (v : υ) : v ∈ t.values ↔ ∃ k, t.get? k = some v := by
  simp only [values, List.mem_map, ← mem_entries_iff]
  exact ⟨fun ⟨e, he, hv⟩ => ⟨e.1, hv ▸ he⟩, fun ⟨k, hk⟩ => ⟨_, hk, rfl⟩⟩

theorem nodup_values {t : Table κ υ}
    (hinj : ∀ k k' v, t.get? k = some v → t.get? k' = some v → k = k') : t.values.Nodup := by
  refine List.pairwise_map.2 ((List.pairwise_map.1 t.keys_nodup).imp_of_mem ?_)
  intro e e' he he' hne heq
  exact hne (hinj e.1 e'.1 e.2 ((t.mem_entries_iff ..).1 he) ((t.mem_entries_iff ..).1 (heq ▸ he')))

/-- A table that gives no value to two keys has as many entries as it has values; so it is as large
as a table that has these values as its keys. -/
theorem size_eq_of_values {ω : Type} [DecidableEq υ] {t : Table κ υ} {s : Table υ ω}
    (hinj : ∀ k k' v, t.get? k = some v → t.get? k' = some v → k = k')
    (hkeys : ∀ v, (∃ k, t.get? k = some v) ↔ (s.get? v).isSome = true) : t.size = s.size := by
  have hperm : t.values.Perm s.keys :=
    (List.perm_ext_iff_of_nodup (nodup_values hinj) s.keys_nodup).2 fun v => by
      rw [mem_values_iff, hkeys]
      exact (s.mem_keys_iff v).symm
  rw [← s.length_keys, ← hperm.length_eq]
  exact (List.length_map _).symm

end Table
end Folio
