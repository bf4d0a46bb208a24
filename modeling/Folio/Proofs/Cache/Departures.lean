import Folio.Proofs.Cache.Operation

/-! # Who comes and who leaves

What an operation does to the entries of a cache, apart from their order and the accounts:
`Departs c left c'` says that the instances in `left` went and all others stayed, and
`Enters c id h c'` that an instance came.  Adding an object does both: **`add_entries`**.
-/
namespace Folio.Cache

variable {σ α : Type}

/-- The entries of `c'` are those of `c` without the objects that left. -/
structure Departs (c : Cache σ α) (left : List Handle) (c' : Cache σ α) : Prop where
  stays : ∀ k h, c.entries.get? k = some h → h ∉ left → c'.entries.get? k = some h
  comes : ∀ k h, c'.entries.get? k = some h → c.entries.get? k = some h
  gone : ∀ h ∈ left, ∃ k, c.entries.get? k = some h ∧ c'.entries.get? k = none

/-- The entries of `c'` are those of `c`, and `h` under its identity. -/
def Enters (c : Cache σ α) (id : ObjectId) (h : Handle) (c' : Cache σ α) : Prop :=
  ∀ k, c'.entries.get? k = if k = id then some h else c.entries.get? k

section Departing
variable {c c₁ c' : Cache σ α} {left left' : List Handle} {w : Workspace σ α} {id : ObjectId}
  {h : Handle}

/-- Nobody leaves while the entries stay as they are. -/
theorem departs_nobody (hentries : c'.entries = c.entries) : Departs c [] c' :=
  ⟨fun _ _ hget _ => hentries ▸ hget, fun _ _ hget => hentries ▸ hget, by simp⟩

theorem departs_drop (hget : c.entries.get? id = some h)
    (hentries : c'.entries = c.entries.erase id) : Departs c [h] c' := by
  refine ⟨fun k g hk hg => ?_, fun k g hk => ?_, fun g hg => ?_⟩
  · have hne : k ≠ id := by
      rintro rfl
      exact hg (List.mem_singleton.2 (Option.some.inj (hk.symm.trans hget)))
    rw [hentries, Table.get?_erase, if_neg hne, hk]
  · rw [hentries, Table.get?_erase] at hk
    split at hk
    · cases hk
    · exact hk
  · obtain rfl := List.mem_singleton.1 hg
    exact ⟨id, hget, by rw [hentries, Table.get?_erase, if_pos rfl]⟩

theorem Departs.trans (h₁ : Departs c left c₁) (h₂ : Departs c₁ left' c') :
    Departs c (left ++ left') c' := by
  refine ⟨fun k g hk hg => ?_, fun k g hk => h₁.comes k g (h₂.comes k g hk), fun g hg => ?_⟩
  · rw [List.mem_append, not_or] at hg
    exact h₂.stays k g (h₁.stays k g hk hg.1) hg.2
  · rcases List.mem_append.1 hg with hg | hg
    · obtain ⟨k, hk, hnone⟩ := h₁.gone g hg
      refine ⟨k, hk, Option.eq_none_iff_forall_ne_some.2 fun g' hg' => ?_⟩
      rw [h₂.comes k g' hg'] at hnone
      cases hnone
    · obtain ⟨k, hk, hnone⟩ := h₂.gone g hg
      exact ⟨k, h₁.comes k g hk, hnone⟩

/-- Capacity, order and accounts are no matter of the entries. -/
theorem Departs.congr (hd : Departs c left c') {d : Cache σ α} (hentries : d.entries = c'.entries) :
    Departs c left d := by
  have hlast := hd.trans (departs_nobody hentries)
  rwa [List.append_nil] at hlast

/-- A look-up moves nobody. -/
theorem entries_get (c : Cache σ α) (id : ObjectId) : (c.get id).2.entries = c.entries := by
  unfold Cache.get
  split <;> rfl

theorem departs_remove (c : Cache σ α) (id : ObjectId) :
    Departs c (c.remove id).1.toList (c.remove id).2 := by
  unfold Cache.remove
  cases hget : c.entries.get? id with
  | none => exact departs_nobody rfl
  | some h => exact departs_drop hget rfl

theorem enters_entered (c : Cache σ α) (id : ObjectId) (h : Handle) :
    Enters c id h (c.entered id h) := fun k => Table.get?_insert c.entries id k h

/-- What is replaced leaves, and then the other one comes. -/
theorem enters_insert (hentries : c'.entries = c.entries.insert id h) :
    Enters (c.drop id) id h c' := by
  intro k
  rw [hentries, Table.get?_insert]
  split
  · rfl
  · rw [Cache.drop, Table.get?_erase, if_neg ‹_›]

theorem Enters.comes (he : Enters c id h c') {k : ObjectId} {g : Handle}
    (hget : c'.entries.get? k = some g) : k = id ∧ g = h ∨ c.entries.get? k = some g := by
  rw [he k] at hget
  split at hget
  · exact Or.inl ⟨‹_›, (Option.some.inj hget).symm⟩
  · exact Or.inr hget

theorem Enters.get?_self (he : Enters c id h c') : c'.entries.get? id = some h := by
  rw [he id, if_pos rfl]

theorem Enters.get?_of_ne (he : Enters c id h c') {k : ObjectId} (hne : k ≠ id) :
    c'.entries.get? k = c.entries.get? k := by
  rw [he k, if_neg hne]

variable [Cacheable α]

theorem departs_evictionPass (c : Cache σ α) (exclude : Option ObjectId) (w : Workspace σ α) :
    Departs c (c.evictionPass exclude w).left (c.evictionPass exclude w).cache := by
  rcases evictionPass_cases c exclude w with ⟨w', -, hpass⟩ | ⟨id, h, w', -, hf, hpass⟩
  · rw [hpass]
    exact departs_nobody rfl
  · rw [hpass]
    exact departs_drop hf.entry rfl

theorem departs_evictUpTo (c : Cache σ α) (w : Workspace σ α) (count : Nat) :
    Departs c (c.evictUpTo w count).left (c.evictUpTo w count).cache := by
  induction count generalizing c w with
  | zero => exact departs_nobody rfl
  | succ count ih =>
    have hpass := departs_evictionPass c none w
    unfold evictUpTo
    rcases evictionPass_cases c none w with ⟨w', -, hcase⟩ | ⟨id, h, w', -, -, hcase⟩
    · simp only [hcase]
      exact departs_nobody rfl
    · rw [hcase] at hpass
      simp only [hcase]
      exact hpass.trans (ih _ _)

theorem departs_resize (c : Cache σ α) (capacity : Nat) (w : Workspace σ α) :
    Departs c (c.resize capacity w).left (c.resize capacity w).cache := by
  rcases resize_cases c capacity w with
    ⟨e, hresize⟩ | ⟨b, -, hresize⟩ | ⟨_, b, -, rfl, hleft, hcache, -⟩
  · rw [hresize]
    exact departs_nobody rfl
  · rw [hresize]
    exact departs_nobody rfl
  · rw [hleft, hcache]
    exact (departs_evictUpTo c w _).congr rfl

/-- Making room leaves a new entry, or takes it out again. -/
theorem departs_makeRoom (hget : c.entries.get? id = some h) (w : Workspace σ α) :
    Departs c (c.makeRoom id h w).left (c.makeRoom id h w).cache ∧
      ((c.makeRoom id h w).value = .ok .cached ∧
          (c.makeRoom id h w).cache.entries.get? id = some h ∨
        (∃ e, (c.makeRoom id h w).value = .error e) ∧
          (c.makeRoom id h w).cache.entries = c.entries.erase id) := by
  have hother {id' : ObjectId} (hne : some id ≠ some id') :
      (c.entries.erase id').get? id = some h := by
    rw [Table.get?_erase, if_neg fun heq => hne (congrArg some heq), hget]
  rcases makeRoom_cases c id h w with
    ⟨id', h', w', -, hf, hroom | ⟨n, b, -, -, hroom⟩⟩ | ⟨w', hr, ⟨n, b, -, -, hroom⟩ | hroom⟩
  all_goals rw [hroom]
  · exact ⟨departs_drop hf.entry rfl, Or.inl ⟨rfl, hother hf.other⟩⟩
  · exact ⟨departs_drop hf.entry rfl, Or.inl ⟨rfl, hother hf.other⟩⟩
  · exact ⟨departs_nobody rfl, Or.inl ⟨rfl, hget⟩⟩
  · exact ⟨departs_drop hget rfl, Or.inr ⟨⟨_, rfl⟩, rfl⟩⟩

/-- **Who comes and who leaves when an object is added.**  It is not taken; or it takes the place of
the one that was cached under its identity; or it is entered, and then others leave or itself. -/
theorem add_entries (c : Cache σ α) (h : Handle) (refCount : UInt32) (w : Workspace σ α) :
    ((c.add h refCount w).value = .ok .notCached ∧ (c.add h refCount w).left = [] ∧
      (c.add h refCount w).cache = c) ∨
    ∃ id, w.identity? h = some id ∧
      ((∃ previous, c.entries.get? id = some previous ∧
          (c.add h refCount w).value = .ok .replaced ∧ (c.add h refCount w).left = [previous] ∧
          (c.add h refCount w).cache.entries = c.entries.insert id h) ∨
        (c.entries.get? id = none ∧
          Departs (c.entered id h) (c.add h refCount w).left (c.add h refCount w).cache ∧
          ((c.add h refCount w).value = .ok .cached ∧
              (c.add h refCount w).cache.entries.get? id = some h ∨
            (∃ e, (c.add h refCount w).value = .error e) ∧
              (c.add h refCount w).cache.entries = (c.entered id h).entries.erase id))) := by
  rcases add_cases c h refCount w with ⟨-, hadd⟩ | ⟨id, w', -, hid, -, hadd⟩
  · rw [hadd]
    exact Or.inl ⟨rfl, rfl, rfl⟩
  refine Or.inr ⟨id, hid, ?_⟩
  have hin := (enters_entered c id h).get?_self
  rcases hadd with ⟨previous, hold, hadd⟩ | ⟨hnew, ⟨-, hadd⟩ | ⟨-, hadd⟩⟩
  all_goals rw [hadd]
  · exact Or.inl ⟨previous, hold, rfl, rfl, rfl⟩
  · exact Or.inr ⟨hnew, departs_nobody rfl, Or.inl ⟨rfl, hin⟩⟩
  · exact Or.inr ⟨hnew, departs_makeRoom hin w'⟩

/-- **Who is cached after an operation** was cached before, or came under its own identity. -/
theorem comes_perform (c : Cache σ α) (w : Workspace σ α) (op : Operation)
    (hget : (c.perform w op).1.entries.get? id = some h) :
    c.entries.get? id = some h ∨ w.identity? h = some id := by
  cases op with
  | get other => exact Or.inl (c.entries_get other ▸ hget)
  | add added refCount =>
    rcases c.add_entries added refCount w with
      ⟨-, -, hcache⟩ | ⟨own, hown, ⟨previous, -, -, -, hentries⟩ | ⟨-, hdeparts, -⟩⟩
    · exact Or.inl (hcache ▸ hget)
    · rcases Table.get?_insert_cases (hentries ▸ hget) with ⟨rfl, rfl⟩ | ⟨-, hold⟩
      · exact Or.inr hown
      · exact Or.inl hold
    · rcases (enters_entered c own added).comes (hdeparts.comes id h hget) with ⟨rfl, rfl⟩ | hold
      · exact Or.inr hown
      · exact Or.inl hold
  | remove other => exact Or.inl ((departs_remove c other).comes id h hget)
  | evict => exact Or.inl ((departs_evictionPass c none w).comes id h hget)
  | resize capacity => exact Or.inl ((departs_resize c capacity w).comes id h hget)
  | setOperational operational => exact Or.inl hget

end Departing

end Folio.Cache
