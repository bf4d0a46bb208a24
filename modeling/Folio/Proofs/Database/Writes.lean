import Folio.Proofs.Database.Contents
import Folio.Proofs.Database.Holds

/-! # What operations on collections write

An operation writes an instance only if it takes the instance out of its place in the cache: to shed
it, or to put another one there.  So under each identity it writes nothing, or the record of the
instance that was cached there and was dirty, which is clean from then on (`Writes`).  This is what
lets one see from the marks alone which instances have been written.
-/
namespace Folio

open Cache (Handle Instance Pool)

namespace Holdings

/-- An instance in memory is marked as changed. -/
def marked (H : Holdings) (h : Handle) : Bool := (H.pool.get? h).any (·.dirty)

/-- Nothing is written under an identity. -/
structure Untouched (H H' : Holdings) (id : ObjectId) : Prop where
  raw : H'.store.raw? id = H.store.raw? id
  marks : ∀ h c, H.pool.get? h = some c → c.content.id = id → H'.marked h = c.dirty

/-- The instance that was cached under an identity is written because it was dirty. -/
structure WrittenBack (H H' : Holdings) (id : ObjectId) (h : Handle) (c : Collection) : Prop where
  entry : H.entry id = some h
  loaded : H.pool.get? h = some c
  changed : c.dirty = true
  clean : H'.marked h = false
  raw : H'.store.raw? id = some c.content.encode

/-- **What an operation on collections writes.**  Instances keep their records and are not marked;
and under each identity, except the one that room is made for, the cached instance may be written
back. -/
structure Writes (exclude : Option ObjectId) (H H' : Holdings) : Prop where
  kept : ∀ h c, H.pool.get? h = some c →
    ∃ c', H'.pool.get? h = some c' ∧ c'.content = c.content ∧ (c'.dirty = true → c.dirty = true)
  stored : ∀ id, Untouched H H' id ∨ exclude ≠ some id ∧ ∃ h c, WrittenBack H H' id h c

section
variable {exclude : Option ObjectId} {H H₁ H' : Holdings} {h : Handle} {c : Collection}
  {id : ObjectId}

theorem marked_of_get? (hc : H.pool.get? h = some c) : H.marked h = c.dirty := by
  rw [marked, hc]
  rfl

theorem WrittenBack.identity (hb : WrittenBack H H' id h c) (hf : H.Filed) : c.content.id = id := by
  obtain ⟨c', hc', hid⟩ := hf id h hb.entry
  obtain rfl := Option.some.inj (hc'.symm.trans hb.loaded)
  exact hid

/-- An instance that is there before and after has the same record, and was not marked. -/
theorem Writes.same (hw : Writes exclude H H') {c' : Collection} (hc : H.pool.get? h = some c)
    (hc' : H'.pool.get? h = some c') :
    c'.content = c.content ∧ (c'.dirty = true → c.dirty = true) := by
  obtain ⟨b, hb, hsame⟩ := hw.kept h c hc
  obtain rfl := Option.some.inj (hb.symm.trans hc')
  exact hsame

/-- Pins and locks may change where nothing is written. -/
theorem writes_nothing (hraw : ∀ id, H'.store.raw? id = H.store.raw? id)
    (hkept : ∀ h c, H.pool.get? h = some c →
      ∃ c', H'.pool.get? h = some c' ∧ c'.content = c.content ∧ c'.dirty = c.dirty) :
    Writes exclude H H' where
  kept h c hc := by
    obtain ⟨c', hc', hcontent, hdirty⟩ := hkept h c hc
    exact ⟨c', hc', hcontent, fun hmarked => hdirty ▸ hmarked⟩
  stored id := by
    refine Or.inl ⟨hraw id, fun h c hc _ => ?_⟩
    obtain ⟨c', hc', -, hdirty⟩ := hkept h c hc
    exact (marked_of_get? hc').trans hdirty

theorem Writes.refl (exclude : Option ObjectId) (H : Holdings) : Writes exclude H H :=
  writes_nothing (fun _ => rfl) fun _ c hc => ⟨c, hc, rfl, rfl⟩

/-- Where instances are cached makes no difference afterwards. -/
theorem Writes.place (hw : Writes exclude H H₁) (entry : ObjectId → Option Handle) :
    Writes exclude H { H₁ with entry } where
  kept := hw.kept
  stored id := by
    rcases hw.stored id with hsame | ⟨hother, h, c, hback⟩
    · exact Or.inl ⟨hsame.raw, hsame.marks⟩
    · exact Or.inr ⟨hother, h, c, hback.entry, hback.loaded, hback.changed, hback.clean, hback.raw⟩

/-! ## Saving -/

/-- **A cached instance that is saved** is written under its identity. -/
theorem Saved.writes (hs : Saved h H H') (hf : H.Filed) (hentry : H.entry id = some h)
    (hother : exclude ≠ some id) : Writes exclude H H' := by
  cases hs with
  | clean => exact .refl exclude H
  | @written c s loaded accepted changed =>
    obtain ⟨c', hc', rfl⟩ := hf id h hentry
    obtain rfl := Option.some.inj (hc'.symm.trans loaded)
    have hset := Pool.get?_set_of_some loaded (c'.setDirty false)
    refine ⟨fun k c hc => ?_, fun id => ?_⟩
    · by_cases hk : h = k
      · subst hk
        obtain rfl := Option.some.inj (hc.symm.trans loaded)
        exact ⟨_, (hset h).trans (if_pos rfl), rfl, fun _ => changed⟩
      · exact ⟨c, (hset k).trans ((if_neg hk).trans hc), rfl, fun hdirty => hdirty⟩
    · by_cases hid : id = c'.content.id
      · subst hid
        refine Or.inr ⟨hother, h, c', hentry, loaded, changed, ?_, ?_⟩
        · exact marked_of_get? (c := c'.setDirty false) ((hset h).trans (if_pos rfl))
        · exact (congrArg (Table.get? · _) (Store.write_eq accepted)).trans
            ((Table.get?_insert _ _ _ _).trans (if_pos rfl))
      · refine Or.inl ⟨Store.raw?_write accepted hid, fun k c hc hk => ?_⟩
        have hne : h ≠ k := by
          rintro rfl
          obtain rfl := Option.some.inj (hc.symm.trans loaded)
          exact hid hk.symm
        exact marked_of_get? ((hset k).trans ((if_neg hne).trans hc))

/-- Instances leave one after another. -/
theorem Writes.trans (h₁ : Writes exclude H H₁) (h₂ : Writes exclude H₁ H') (hf : H.Filed)
    (hleft : ∀ id h, H₁.entry id = some h → H.entry id = some h) : Writes exclude H H' where
  kept h c hc := by
    obtain ⟨c₁, hc₁, hcontent₁, hmark₁⟩ := h₁.kept h c hc
    obtain ⟨c', hc', hcontent, hmark⟩ := h₂.kept h c₁ hc₁
    exact ⟨c', hc', hcontent.trans hcontent₁, hmark₁ ∘ hmark⟩
  stored id := by
    rcases h₂.stored id with hsame | ⟨hother, h, c₁, hback⟩
    · rcases h₁.stored id with hsame₁ | ⟨hother, h, c, hback⟩
      · refine Or.inl ⟨hsame.raw.trans hsame₁.raw, fun h c hc hid => ?_⟩
        obtain ⟨c₁, hc₁, hcontent, -⟩ := h₁.kept h c hc
        have hid₁ : c₁.content.id = id := hcontent ▸ hid
        calc H'.marked h = c₁.dirty := hsame.marks h c₁ hc₁ hid₁
          _ = H₁.marked h := (marked_of_get? hc₁).symm
          _ = c.dirty := hsame₁.marks h c hc hid
      · obtain ⟨c₁, hc₁, hcontent, -⟩ := h₁.kept h c hback.loaded
        refine Or.inr ⟨hother, h, c, hback.entry, hback.loaded, hback.changed, ?_,
          hsame.raw.trans hback.raw⟩
        calc H'.marked h = c₁.dirty := hsame.marks h c₁ hc₁ (hcontent ▸ hback.identity hf)
          _ = H₁.marked h := (marked_of_get? hc₁).symm
          _ = false := hback.clean
    -- what is written now has been cached since the beginning, and dirty
    · have hentry := hleft id h hback.entry
      obtain ⟨c, hc, hid⟩ := hf id h hentry
      obtain ⟨hcontent, hmark⟩ := h₁.same hc hback.loaded
      refine Or.inr ⟨hother, h, c, hentry, hc, hmark hback.changed, hback.clean, ?_⟩
      rw [hback.raw, hcontent]

theorem Unload.writes (hu : Unload exclude H H') (hf : H.Filed) :
    Writes exclude H H' ∧ ∀ id h, H'.entry id = some h → H.entry id = some h := by
  obtain ⟨other, entry, -, -, -, saved⟩ := hu
  have hw := saved.writes hf entry other
  refine ⟨hw.place _, fun k j hleft => ?_⟩
  rw [← congrFun saved.entry_eq k]
  unfold leave at hleft
  dsimp only at hleft
  split at hleft
  · cases hleft
  · exact hleft

/-- **Instances that are shed** are written back if they are dirty. -/
theorem Sheds.writes (hs : Sheds exclude H H') (hf : H.Filed) :
    Writes exclude H H' ∧ ∀ id h, H'.entry id = some h → H.entry id = some h := by
  induction hs with
  | refl => exact ⟨.refl exclude H, fun _ _ => id⟩
  | @tail H₁ H₂ before hu ih =>
    obtain ⟨hw, hleft⟩ := ih
    have hleads : Leads (fun _ => False) H H₁ := Sheds.leads before nofun
    obtain ⟨hw', hleft'⟩ := hu.writes (hleads.filed hf)
    exact ⟨hw.trans hw' hf hleft, fun id h hentry => hleft id h (hleft' id h hentry)⟩

/-! ## Bringing in -/

/-- No instance is cached before it comes into memory. -/
theorem Filed.ne_fresh (hf : H.Filed) (hentry : H.entry id = some h) : h ≠ H.fresh := by
  rintro rfl
  obtain ⟨c, hc, -⟩ := hf id _ hentry
  rw [get?_fresh] at hc
  cases hc

/-- An instance that is in memory when another one comes was there before. -/
theorem get?_of_load (hne : h ≠ H.fresh) (c : Collection) :
    (H.load c).pool.get? h = H.pool.get? h := by
  rw [get?_load, if_neg hne]

theorem Filed.load (hf : H.Filed) (c : Collection) : (H.load c).Filed := by
  intro k j hentry
  obtain ⟨b, hb, hid⟩ := hf k j hentry
  exact ⟨b, get?_load_of_some hb c, hid⟩

/-- What is written after a new instance has come is not its record, unless its place is taken. -/
theorem Writes.of_load (hw : Writes exclude H₁ H') (hf : H.Filed)
    (hpool : H₁.pool = (H.load c).pool) (hstore : H₁.store = H.store)
    (hentry : ∀ id h, exclude ≠ some id → H₁.entry id = some h → H.entry id = some h) :
    Writes none H H' where
  kept h b hb := hw.kept h b (hpool ▸ get?_load_of_some hb c)
  stored id := by
    rcases hw.stored id with hsame | ⟨hother, h, b, hback⟩
    · refine Or.inl ⟨hstore ▸ hsame.raw, fun h b hb => hsame.marks h b ?_⟩
      rw [hpool]
      exact get?_load_of_some hb c
    · have hold := hentry id h hother hback.entry
      refine Or.inr ⟨nofun, h, b, hold, ?_, hback.changed, hback.clean, hback.raw⟩
      rw [← get?_of_load (hf.ne_fresh hold) c, ← hpool]
      exact hback.loaded

theorem Brought.eq_fresh (hb : Brought H c (.ok h) H') : h = H.fresh := by
  cases hb with
  | cached => rfl
  | replaced => rfl

/-- A collection that is turned away is not cached. -/
theorem Brought.entry_eq_of_error {e : Cache.Error} (hb : Brought H c (.error e) H') :
    H'.entry = H.entry := by
  cases hb with
  | rejected => rfl

/-- **Bringing in** writes what is shed, or what is replaced.  The new instance has the record it
came with. -/
theorem Brought.writes {result : Except Cache.Error Handle} (hb : Brought H c result H')
    (hf : H.Filed) :
    Writes none H H' ∧
      (∀ id h, H'.entry id = some h → H.entry id = some h ∨ h = H.fresh) ∧
      ∃ c', H'.pool.get? H.fresh = some c' ∧ c'.content = c.content ∧
        (c'.dirty = true → c.dirty = true) := by
  have hfresh := get?_load_fresh H c
  have hentered {H₁ : Holdings} (hsame : H₁.entry = H.entry) (id : ObjectId) (h : Handle)
      (hentry : (H₁.enter c.content.id H.fresh).entry id = some h) :
      H.entry id = some h ∨ h = H.fresh := by
    rw [← hsame]
    unfold enter at hentry
    dsimp only at hentry
    split at hentry
    · exact Or.inr (Option.some.inj hentry).symm
    · exact Or.inl hentry
  cases hb with
  | cached new sheds =>
    have hleads : Leads (fun _ => False) (H.load c) ((H.load c).enter c.content.id H.fresh) :=
      leads_enter hfresh rfl nofun
    obtain ⟨hw, hleft⟩ := sheds.writes (hleads.filed (hf.load c))
    refine ⟨hw.of_load hf rfl rfl fun id h hother hentry => ?_, fun id h hentry => ?_, ?_⟩
    · have hne : id ≠ c.content.id := fun heq => hother (congrArg some heq.symm)
      exact (if_neg hne).symm.trans hentry
    · exact hentered rfl id h (hleft id h hentry)
    · obtain ⟨c', hc', hcontent, hmark⟩ := hw.kept _ _ hfresh
      exact ⟨c', hc', hcontent, hmark⟩
  | rejected new e =>
    refine ⟨?_, fun id h hentry => Or.inl hentry, _, hfresh, rfl, fun hdirty => hdirty⟩
    exact (Writes.refl none (H.load c)).of_load hf rfl rfl fun _ _ _ hentry => hentry
  | @replaced previous H₁ old saved =>
    have hw : Writes none (H.load c) H₁ ∧ H₁.entry = H.entry := by
      rcases saved with rfl | saved
      · exact ⟨.refl none _, rfl⟩
      · exact ⟨saved.writes (hf.load c) old nofun, saved.entry_eq⟩
    have hafter : Writes none H H₁ := hw.1.of_load hf rfl rfl fun _ _ _ hentry => hentry
    obtain ⟨c', hc', hcontent, hmark⟩ := hw.1.kept _ _ hfresh
    exact ⟨hafter.place _, hentered hw.2, c', hc', hcontent, hmark⟩

/-! ## Operations that change no record -/

/-- **What an operation does that changes no record.**  What comes into the cache was read from the
store. -/
structure Shifts (H H' : Holdings) : Prop where
  writes : Writes none H H'
  comes : ∀ id h, H'.entry id = some h → H.entry id = some h ∨
    h = H.fresh ∧ ∃ c, H'.pool.get? h = some c ∧ c.dirty = false ∧ ∃ id', H.store.Has id' c.content

theorem Sheds.shifts (hs : Sheds none H H') (hf : H.Filed) : Shifts H H' := by
  obtain ⟨hw, hleft⟩ := hs.writes hf
  exact ⟨hw, fun id h hentry => Or.inl (hleft id h hentry)⟩

/-- Nothing but pins and locks changes. -/
theorem shifts_nothing (hentry : H'.entry = H.entry)
    (hraw : ∀ id, H'.store.raw? id = H.store.raw? id)
    (hkept : ∀ h c, H.pool.get? h = some c →
      ∃ c', H'.pool.get? h = some c' ∧ c'.content = c.content ∧ c'.dirty = c.dirty) :
    Shifts H H' :=
  ⟨writes_nothing hraw hkept, fun _ _ hcached => Or.inl (hentry ▸ hcached)⟩

theorem Shifts.refl (H : Holdings) : Shifts H H :=
  shifts_nothing rfl (fun _ => rfl) fun _ c hc => ⟨c, hc, rfl, rfl⟩

theorem Relocked.shifts (hr : Relocked H H') : Shifts H H' := by
  refine shifts_nothing hr.entry (fun id => congrArg (·.raw? id) hr.store) fun h c hc => ?_
  obtain ⟨lock, hc'⟩ := hr.get? hc
  exact ⟨_, hc', rfl, rfl⟩

theorem shifts_alter (h : Handle) {f : Collection → Collection}
    (hcontent : ∀ c, (f c).content = c.content) (hdirty : ∀ c, (f c).dirty = c.dirty) :
    Shifts H (H.alter h f) := by
  refine shifts_nothing rfl (fun _ => rfl) fun k c hc => ?_
  rw [alter, Pool.get?_modify, hc]
  split
  · exact ⟨f c, rfl, hcontent c, hdirty c⟩
  · exact ⟨c, rfl, rfl, rfl⟩

/-- **Opening** reads what it brings in. -/
theorem Opened.shifts {timeout : Option Duration}
    {result : Except Database.Error (Option Handle)} (ho : Opened H id timeout result H')
    (hf : H.Filed) : Shifts H H' := by
  cases ho with
  | cached => exact shifts_alter _ (fun _ => rfl) fun _ => rfl
  | absent => exact .refl H
  | damaged => exact .refl H
  | @loaded block r _ _ new stored readable brought =>
    obtain ⟨hw, hcomes, c, hc, hcontent, hclean⟩ := brought.writes hf
    refine ⟨hw, fun k h hentry => ?_⟩
    rcases hcomes k h hentry with hold | rfl
    · exact Or.inl hold
    · refine Or.inr ⟨rfl, c, hc, ?_, id, block, stored, ?_⟩
      · exact Bool.eq_false_iff.2 fun hdirty => Bool.false_ne_true (hclean hdirty)
      · rw [hcontent]
        exact readable

end
end Holdings
end Folio
