import Mathlib.Data.List.Basic
import Folio.Proofs.Database.Reach

/-! # Writing back with nobody else at work

The dirty collections in a cache are written back one after another, in an order that nobody has
chosen.  It makes no difference.  Whether a collection is written depends on its own lock and on
whether the store takes anything, and neither changes on the way (`Database.flushEach_eq`).  A
record that is written takes its name over and gives up the ones it had, so what two writes leave
behind depends on their order only if they are of one identity or of one name; the store that the
writes of any others leave behind is described without an order (`Store.raw?_fileAll_of_mem`,
`Store.findByName?_fileAll_iff`).

**`Database.flushDirty_exact`** puts this together for every state of a database and for its
shutdown.
-/
namespace Folio

open Cache (Added Handle Instance Pool Workspace)

/-- The values of a table are those of its keys. -/
theorem Table.filterMap_get?_keys {κ υ : Type} [DecidableEq κ] (t : Table κ υ) :
    t.keys.filterMap t.get? = t.values := by
  have hvalue : ∀ e ∈ t.entries, (t.get? ∘ (·.1)) e = some e.2 := fun e he =>
    (t.mem_entries_iff ..).1 he
  rw [keys, values, List.filterMap_map, List.filterMap_congr hvalue, List.filterMap_eq_map']

/-! ## Several writes -/

namespace Store

/-- The store after records were filed one after another. -/
def fileAll (s : Store) (rs : List Record) : Store := rs.foldl file s

/-- Two stores are the same to those who look into them. -/
structure Same (s s' : Store) : Prop where
  raw : ∀ id, s'.raw? id = s.raw? id
  names : ∀ n, s'.findByName? n = s.findByName? n
  readOnly : s'.readOnly = s.readOnly

/-- Two records that claim neither the same identity nor the same name. -/
def Apart (r r' : Record) : Prop := r.id ≠ r'.id ∧ r.name ≠ r'.name

variable {s : Store} {r : Record} {rs rs' : List Record} {id : ObjectId} {n : String}

theorem readOnly_fileAll (s : Store) (rs : List Record) :
    (s.fileAll rs).readOnly = s.readOnly := by
  induction rs generalizing s with
  | nil => rfl
  | cons r rs ih => exact ih (s.file r)

theorem raw?_fileAll_of_absent (h : ∀ r ∈ rs, r.id ≠ id) : (s.fileAll rs).raw? id = s.raw? id := by
  induction rs generalizing s with
  | nil => rfl
  | cons r rs ih =>
    obtain ⟨hr, hrs⟩ := List.forall_mem_cons.1 h
    have hothers := ih hrs (s := s.file r)
    rwa [raw?_file, if_neg hr.symm] at hothers

/-- **Each record is filed as it is**, wherever it stands among others. -/
theorem raw?_fileAll_of_mem (ha : rs.Pairwise Apart) (hr : r ∈ rs) :
    (s.fileAll rs).raw? r.id = some r.encode := by
  induction rs generalizing s with
  | nil => cases hr
  | cons first rs ih =>
    obtain ⟨hfirst, hrs⟩ := List.pairwise_cons.1 ha
    rcases List.mem_cons.1 hr with rfl | hr
    · have habsent : ∀ r' ∈ rs, r'.id ≠ r.id := fun r' hr' => (hfirst r' hr').1.symm
      refine (raw?_fileAll_of_absent habsent).trans ?_
      rw [raw?_file, if_pos rfl]
    · exact ih hrs hr

/-- **Every name stands for the record that bears it**, or for the same one as before if no record
was filed under that name or that identity. -/
theorem findByName?_fileAll_iff (ha : rs.Pairwise Apart) :
    (s.fileAll rs).findByName? n = some id ↔
      (∃ r ∈ rs, n = r.name ∧ id = r.id) ∨
        (∀ r ∈ rs, n ≠ r.name ∧ id ≠ r.id) ∧ s.findByName? n = some id := by
  induction rs generalizing s with
  | nil => simp [fileAll]
  | cons first rs ih =>
    obtain ⟨hfirst, hrs⟩ := List.pairwise_cons.1 ha
    have hothers := ih hrs (s := s.file first)
    rw [findByName?_file_iff] at hothers
    refine hothers.trans ?_
    rw [List.forall_mem_cons, List.exists_mem_cons_iff]
    constructor
    · rintro (hlater | ⟨hfree, ⟨hn, hid⟩ | ⟨hn, hid, hold⟩⟩)
      · exact Or.inl (Or.inr hlater)
      · exact Or.inl (Or.inl ⟨hn, hid⟩)
      · exact Or.inr ⟨⟨⟨hn, hid⟩, hfree⟩, hold⟩
    · rintro ((⟨rfl, rfl⟩ | hlater) | ⟨⟨⟨hn, hid⟩, hfree⟩, hold⟩)
      · exact Or.inr ⟨fun r hr => ⟨(hfirst r hr).2, (hfirst r hr).1⟩, Or.inl ⟨rfl, rfl⟩⟩
      · exact Or.inl hlater
      · exact Or.inr ⟨hfree, Or.inr ⟨hn, hid, hold⟩⟩

/-- **The order of the writes makes no difference.** -/
theorem same_fileAll (ha : rs.Pairwise Apart) (hp : rs.Perm rs') (s : Store) :
    Same (s.fileAll rs) (s.fileAll rs') := by
  have ha' : rs'.Pairwise Apart :=
    (hp.pairwise_iff fun hapart => ⟨hapart.1.symm, hapart.2.symm⟩).1 ha
  refine ⟨fun id => ?_, fun n => Option.ext fun id => ?_, ?_⟩
  · by_cases hid : ∃ r ∈ rs, r.id = id
    · obtain ⟨r, hr, rfl⟩ := hid
      rw [raw?_fileAll_of_mem ha hr, raw?_fileAll_of_mem ha' (hp.mem_iff.1 hr)]
    · have habsent : ∀ r ∈ rs, r.id ≠ id := fun r hr heq => hid ⟨r, hr, heq⟩
      rw [raw?_fileAll_of_absent habsent,
        raw?_fileAll_of_absent fun r hr => habsent r (hp.mem_iff.2 hr)]
  · rw [findByName?_fileAll_iff ha, findByName?_fileAll_iff ha']
    simp only [hp.mem_iff]
  · rw [readOnly_fileAll, readOnly_fileAll]

end Store

/-! ## What becomes of the collections -/

namespace Database

/-- A collection can be written now: nobody writes it or waits to write it, and the store takes
it. -/
structure Writable (d : Database) (c : Collection) : Prop where
  noWriter : c.lock.writer = false
  nobodyWaits : c.lock.waitingWriters = 0
  storeTakes : d.store.readOnly = false

instance (d : Database) (c : Collection) : Decidable (d.Writable c) :=
  decidable_of_iff (c.lock.writer = false ∧ c.lock.waitingWriters = 0 ∧ d.store.readOnly = false)
    ⟨fun ⟨hw, hn, hs⟩ => ⟨hw, hn, hs⟩, fun h => ⟨h.noWriter, h.nobodyWaits, h.storeTakes⟩⟩

/-- An instance can be written now. -/
def writable (d : Database) (h : Handle) : Bool :=
  (d.collection? h).any fun c => decide (d.Writable c)

/-- The cached collections that are dirty, as they stand in the table of entries. -/
def dirtyCached (d : Database) : List Handle :=
  d.cache.base.entries.values.filter fun h => (d.collection? h).any (·.dirty)

/-- The records of instances. -/
def records (d : Database) (hs : List Handle) : List Record :=
  hs.filterMap fun h => (d.collection? h).map (·.content)

/-- Instances are clean from now on. -/
def cleanAll (p : Pool Record) (hs : List Handle) : Pool Record :=
  hs.foldl (fun p h => p.modify h (·.setDirty false)) p

/-- Instances are written one after another, whatever their locks are. -/
def writeAll (d : Database) (hs : List Handle) : Database :=
  { d with workspace :=
    { d.workspace with
      pool := cleanAll d.workspace.pool hs
      outside := d.store.fileAll (d.records hs) } }

section
variable {d : Database} {h k : Handle} {hs hs' : List Handle} {c : Collection}

theorem get?_cleanAll (p : Pool Record) (hs : List Handle) (k : Handle) :
    (cleanAll p hs).get? k = if k ∈ hs then (p.get? k).map (·.setDirty false) else p.get? k := by
  induction hs generalizing p with
  | nil => rfl
  | cons h hs ih =>
    have hothers := ih (p.modify h (·.setDirty false))
    refine hothers.trans ?_
    rw [Pool.get?_modify]
    by_cases hk : h = k
    · subst hk
      cases p.get? h <;> simp [Instance.setDirty]
    · simp [hk, Ne.symm hk]

theorem collection?_writeAll (d : Database) (hs : List Handle) (k : Handle) :
    (d.writeAll hs).collection? k =
      if k ∈ hs then (d.collection? k).map (·.setDirty false) else d.collection? k :=
  get?_cleanAll ..

theorem collection?_writeAll_of_not_mem (hk : k ∉ hs) :
    (d.writeAll hs).collection? k = d.collection? k := by
  rw [collection?_writeAll, if_neg hk]

/-- A write changes no record. -/
theorem records_writeAll (d : Database) (hs ks : List Handle) :
    (d.writeAll hs).records ks = d.records ks := by
  refine List.filterMap_congr fun k _ => ?_
  rw [collection?_writeAll]
  split
  · cases d.collection? k <;> rfl
  · rfl

theorem writeAll_writeAll (d : Database) (h : Handle) (hs : List Handle) :
    (d.writeAll [h]).writeAll hs = d.writeAll (h :: hs) := by
  have hrecords : d.records (h :: hs) = d.records [h] ++ d.records hs :=
    List.filterMap_append (l := [h])
  have hstore : (d.store.fileAll (d.records [h])).fileAll (d.records hs) =
      d.store.fileAll (d.records (h :: hs)) := by
    rw [hrecords]
    exact List.foldl_append.symm
  unfold writeAll
  rw [← hstore, ← records_writeAll d [h] hs]
  rfl

theorem store_writeAll_readOnly (d : Database) (hs : List Handle) :
    (d.writeAll hs).store.readOnly = d.store.readOnly :=
  d.store.readOnly_fileAll _

theorem writable_writeAll (hk : k ∉ hs) : (d.writeAll hs).writable k = d.writable k := by
  unfold writable
  rw [collection?_writeAll_of_not_mem hk]
  refine congrArg (Option.any · (d.collection? k)) (funext fun c => decide_eq_decide.2 ?_)
  have hreadOnly := d.store_writeAll_readOnly hs
  exact ⟨fun ⟨hw, hn, hs⟩ => ⟨hw, hn, hreadOnly ▸ hs⟩, fun ⟨hw, hn, hs⟩ => ⟨hw, hn, hreadOnly ▸ hs⟩⟩

theorem writable_of_collection? (hc : d.collection? h = some c) :
    d.writable h = decide (d.Writable c) := by
  rw [writable, hc]
  rfl

theorem admits_of_writable (hw : d.Writable c) : c.lock.admits .read = true := by
  simp [Lock.admits, hw.noWriter, hw.nobodyWaits]

/-- A collection that can be written is written and clean, with its lock as it was. -/
theorem flushOne_of_writable (hc : d.collection? h = some c) (hw : d.Writable c) :
    d.flushOne h = (true, d.writeAll [h]) := by
  have hheld : c.lock.tryAcquire .read = some (c.lock.grant .read) := if_pos (admits_of_writable hw)
  have hwrite := Store.write_eq_file hw.storeTakes ((c.setLock (c.lock.grant .read)).setDirty false)
  have hrecords : d.records [h] = [c.content] := by simp [records, hc]
  have hclean : d.workspace.pool.set h (c.setDirty false) = cleanAll d.workspace.pool [h] := by
    refine Pool.ext_get? fun k => ?_
    rw [Pool.get?_set_of_some hc, get?_cleanAll]
    by_cases hk : h = k
    · subst hk
      have hloaded : d.workspace.pool.get? h = some c := hc
      simp [hloaded]
    · simp [hk, Ne.symm hk]
  unfold flushOne
  simp only [hc, hheld, hwrite]
  unfold writeAll
  rw [← hclean, hrecords]
  simp only [Instance.setLock, Instance.setDirty, Lock.releaseIfHeld_grant_read]
  rfl

/-- A dirty collection that cannot be written is as it was. -/
theorem flushOne_of_not_writable (hc : d.collection? h = some c) (hdirty : c.dirty = true)
    (hw : ¬d.Writable c) : d.flushOne h = (false, d) := by
  by_cases hfree : c.lock.admits .read = true
  · have hlock : c.lock.writer = false ∧ c.lock.waitingWriters = 0 := by
      simpa [Lock.admits] using hfree
    have hrefuses : d.store.readOnly = true :=
      Bool.of_not_eq_false fun htakes => hw ⟨hlock.1, hlock.2, htakes⟩
    have hheld : c.lock.tryAcquire .read = some (c.lock.grant .read) := if_pos hfree
    have hwrite :=
      Store.write_refused hrefuses ((c.setLock (c.lock.grant .read)).setDirty false)
    -- the flag that was cleared is set again and the lock is given back
    have hback : ((c.setLock (c.lock.grant .read)).setDirty false).setDirty true =
        c.setLock (c.lock.grant .read) := by
      simp only [Instance.setDirty, Instance.setLock, hdirty]
    have hfree : c.setLock ((c.setLock (c.lock.grant .read)).lock.releaseIfHeld .read) = c :=
      congrArg c.setLock c.lock.releaseIfHeld_grant_read
    have hsame : d.workspace.pool.set h c = d.workspace.pool := Pool.set_get? hc
    have hafter : d.flushOne h =
        (false, (d.setStore d.store).modify h fun _ =>
          c.setLock ((c.setLock (c.lock.grant .read)).lock.releaseIfHeld .read)) := by
      unfold flushOne
      simp only [hc, hheld, hwrite, hback]
      rfl
    rw [hafter, hfree]
    exact congrArg (fun pool => (false, { d with workspace := { d.workspace with pool } })) hsame
  · have hbusy : c.lock.tryAcquire .read = none := if_neg hfree
    simp only [flushOne, hc, hbusy]

/-- **Writing back is a choice that is made beforehand.**  Of instances that are dirty those are
written that could be written at first. -/
theorem flushEach_eq (hnodup : hs.Nodup)
    (hdirty : ∀ h ∈ hs, ∃ c, d.collection? h = some c ∧ c.dirty = true) :
    d.flushEach hs = ((hs.countP d.writable, hs.countP (!d.writable ·)),
      d.writeAll (hs.filter d.writable)) := by
  induction hs generalizing d with
  | nil => rfl
  | cons h hs ih =>
    obtain ⟨hnew, hnodup⟩ := List.nodup_cons.1 hnodup
    obtain ⟨⟨c, hc, hfirst⟩, hothers⟩ := List.forall_mem_cons.1 hdirty
    have hwritable := writable_of_collection? hc
    by_cases hw : d.Writable c
    · -- the others are as they were when the first one is written
      have hapart : ∀ k ∈ hs, k ∉ [h] := fun k hk hin =>
        hnew (List.mem_singleton.1 hin ▸ hk)
      have hsame : ∀ k ∈ hs, (d.writeAll [h]).writable k = d.writable k := fun k hk =>
        writable_writeAll (hapart k hk)
      have hrest := ih (d := d.writeAll [h]) hnodup fun k hk => by
        rw [collection?_writeAll_of_not_mem (hapart k hk)]
        exact hothers k hk
      have hwritten : hs.countP (d.writeAll [h]).writable = hs.countP d.writable :=
        List.countP_congr fun k hk => by rw [hsame k hk]
      have hskipped : hs.countP (!(d.writeAll [h]).writable ·) = hs.countP (!d.writable ·) :=
        List.countP_congr fun k hk => by rw [hsame k hk]
      rw [hwritten, hskipped, List.filter_congr hsame, writeAll_writeAll] at hrest
      rw [decide_eq_true hw] at hwritable
      simp only [flushEach, flushOne_of_writable hc hw, hrest]
      simp [hwritable]
    · rw [decide_eq_false hw] at hwritable
      simp only [flushEach, flushOne_of_not_writable hc hfirst hw, ih hnodup hothers]
      simp [hwritable]

/-! ## Every dirty collection in the cache -/

/-- No instance is cached under two identities. -/
theorem Filing.nodup_values (hd : d.Filing) : d.cache.base.entries.values.Nodup :=
  Table.nodup_values fun _ _ _ hk hk' =>
    Option.some.inj ((hd.filed hk).symm.trans (hd.filed hk'))

theorem Filing.mem_dirtyCached (hd : d.Filing) (hh : h ∈ d.dirtyCached) :
    ∃ c, d.collection? h = some c ∧ c.dirty = true ∧
      d.cache.base.entries.get? c.content.id = some h := by
  obtain ⟨hcached, hdirty⟩ := List.mem_filter.1 hh
  obtain ⟨id, hentry⟩ := (Table.mem_values_iff ..).1 hcached
  obtain ⟨c, hc, rfl⟩ := Option.map_eq_some_iff.1 (hd.filed hentry)
  have hloaded : d.collection? h = some c := hc
  rw [hloaded] at hdirty
  exact ⟨c, hloaded, hdirty, hentry⟩

/-- The instances that a flush goes through are the dirty ones in the table of entries. -/
theorem dirtyHandles_perm (ht : d.cache.base.Tidy) : d.dirtyHandles.Perm d.dirtyCached := by
  have hhandles := ht.ids_perm.filterMap d.cache.base.entries.get?
  rw [Table.filterMap_get?_keys] at hhandles
  exact hhandles.filter _

/-- **Everything dirty has been dealt with**: what could be written is stored as it is and clean,
and what could not is as it was, with its record in the store. -/
structure WrittenBack (d : Database) (counts : Nat × Nat) (d' : Database) : Prop where
  total : counts.1 + counts.2 = d.dirtyCached.length
  flushed : counts.1 = d.dirtyCached.countP d.writable
  written : ∀ h ∈ d.dirtyCached, ∀ c, d.collection? h = some c → d.Writable c →
    d'.collection? h = some (c.setDirty false) ∧
      d'.store.raw? c.content.id = some c.content.encode ∧
      d'.store.findByName? c.content.name = some c.content.id
  skipped : ∀ h ∈ d.dirtyCached, ∀ c, d.collection? h = some c → ¬d.Writable c →
    d'.collection? h = some c ∧ c.dirty = true ∧
      d'.store.raw? c.content.id = d.store.raw? c.content.id
  untouched : ∀ h, h ∉ d.dirtyCached → d'.collection? h = d.collection? h
  others : ∀ id, (∀ r ∈ d.records d.dirtyCached, r.id ≠ id) → d'.store.raw? id = d.store.raw? id
  cache : d'.cache = d.cache
  settings : d'.settings = d.settings
  registry : d'.registry = d.registry

/-- Two databases are the same, but for the order in which their stores keep what is in them. -/
structure Like (d d' : Database) : Prop where
  rest : d' = d.setStore d'.store
  store : d.store.Same d'.store

theorem mem_records (hc : d.collection? h = some c) (hh : h ∈ hs) : c.content ∈ d.records hs :=
  List.mem_filterMap.2 ⟨h, hh, by rw [hc]; rfl⟩

/-- Collections with names of their own are written apart from one another, whatever the order. -/
theorem Filing.apart (hd : d.Filing) (hnames : ((d.records d.dirtyCached).map (·.name)).Nodup)
    (hp : hs.Perm d.dirtyCached) : (d.records (hs.filter d.writable)).Pairwise Store.Apart := by
  have hids : (d.records d.dirtyCached).Pairwise fun r r' => r.id ≠ r'.id := by
    refine List.pairwise_filterMap.2 ((hd.nodup_values.filter _).imp_of_mem ?_)
    intro h k hh hk hne r hr r' hr' heq
    obtain ⟨b, hb, -, hentry⟩ := hd.mem_dirtyCached hh
    obtain ⟨c, hc, -, hentry'⟩ := hd.mem_dirtyCached hk
    rw [hb] at hr
    rw [hc] at hr'
    cases hr
    cases hr'
    rw [heq, hentry'] at hentry
    exact hne (Option.some.inj hentry).symm
  have hapart : (d.records d.dirtyCached).Pairwise Store.Apart :=
    List.pairwise_and_iff.2 ⟨hids, List.pairwise_map.1 hnames⟩
  have hperm : (d.records (d.dirtyCached.filter d.writable)).Perm
      (d.records (hs.filter d.writable)) := (hp.symm.filter _).filterMap _
  have hsub := (List.filter_sublist (p := d.writable) (l := d.dirtyCached)).filterMap
    fun h => (d.collection? h).map (·.content)
  exact (hperm.pairwise_iff fun hr => ⟨hr.1.symm, hr.2.symm⟩).1 (hapart.sublist hsub)

/-- **Every order of the dirty collections deals with all of them.** -/
theorem Filing.writtenBack (hd : d.Filing)
    (hnames : ((d.records d.dirtyCached).map (·.name)).Nodup) (hp : hs.Perm d.dirtyCached) :
    d.flushEach hs = ((hs.countP d.writable, hs.countP (!d.writable ·)),
        d.writeAll (hs.filter d.writable)) ∧
      d.WrittenBack (d.flushEach hs).1 (d.flushEach hs).2 := by
  have hnodup : hs.Nodup := hp.nodup_iff.2 (hd.nodup_values.filter _)
  have hclosed := flushEach_eq hnodup fun h hh => by
    obtain ⟨c, hc, hdirty, -⟩ := hd.mem_dirtyCached (hp.mem_iff.1 hh)
    exact ⟨c, hc, hdirty⟩
  have hapart := hd.apart hnames hp
  have hdone {h : Handle} : h ∈ hs.filter d.writable ↔ h ∈ d.dirtyCached ∧ d.writable h = true := by
    rw [List.mem_filter, hp.mem_iff]
  have hrecord {r : Record} (hr : r ∈ d.records (hs.filter d.writable)) :
      ∃ h c, h ∈ hs.filter d.writable ∧ d.collection? h = some c ∧ c.content = r := by
    obtain ⟨h, hh, hmap⟩ := List.mem_filterMap.1 hr
    obtain ⟨c, hc, hcontent⟩ := Option.map_eq_some_iff.1 hmap
    exact ⟨h, c, hh, hc, hcontent⟩
  refine ⟨hclosed, ?_⟩
  rw [hclosed]
  refine ⟨?_, hp.countP_eq _, fun h hh c hc hw => ?_, fun h hh c hc hw => ?_, fun h hh => ?_,
    fun id hid => ?_, rfl, rfl, rfl⟩
  · rw [← hp.length_eq, List.length_eq_countP_add_countP d.writable]
    simp
  · have hmem := hdone.2 ⟨hh, (writable_of_collection? hc).trans (decide_eq_true hw)⟩
    have hr := mem_records hc hmem
    refine ⟨?_, Store.raw?_fileAll_of_mem hapart hr,
      (Store.findByName?_fileAll_iff hapart).2 (Or.inl ⟨_, hr, rfl, rfl⟩)⟩
    rw [collection?_writeAll, if_pos hmem, hc]
    rfl
  · have hout : h ∉ hs.filter d.writable := fun hmem => by
      rw [hdone, writable_of_collection? hc, decide_eq_true_eq] at hmem
      exact hw hmem.2
    obtain ⟨b, hb, hdirty, hentry⟩ := hd.mem_dirtyCached hh
    obtain rfl := Option.some.inj (hb.symm.trans hc)
    refine ⟨(collection?_writeAll_of_not_mem hout).trans hc, hdirty,
      Store.raw?_fileAll_of_absent fun r hr hid => hout ?_⟩
    -- no other collection is cached under the same identity
    obtain ⟨k, c, hk, hc, rfl⟩ := hrecord hr
    obtain ⟨c', hc', -, hentry'⟩ := hd.mem_dirtyCached (hdone.1 hk).1
    obtain rfl := Option.some.inj (hc'.symm.trans hc)
    rw [hid, hentry] at hentry'
    exact Option.some.inj hentry' ▸ hk
  · exact collection?_writeAll_of_not_mem fun hmem => hh (hdone.1 hmem).1
  · refine Store.raw?_fileAll_of_absent fun r hr => ?_
    obtain ⟨k, c, hk, hc, rfl⟩ := hrecord hr
    exact hid _ (mem_records hc (hdone.1 hk).1)

/-! ## Shutting down -/

/-- The registry has no part in writing back. -/
theorem flushOne_registry (d : Database) (registry : Registry) (h : Handle) :
    flushOne { d with registry } h = ((d.flushOne h).1, { (d.flushOne h).2 with registry }) := by
  have hsame : collection? { d with registry } h = d.collection? h := rfl
  unfold flushOne
  rw [hsame]
  cases d.collection? h with
  | none => rfl
  | some c =>
    dsimp only
    cases c.lock.tryAcquire .read with
    | none => rfl
    | some held => rfl

theorem flushEach_registry (d : Database) (registry : Registry) (hs : List Handle) :
    flushEach { d with registry } hs =
      ((d.flushEach hs).1, { (d.flushEach hs).2 with registry }) := by
  induction hs generalizing d with
  | nil => rfl
  | cons h hs ih =>
    unfold flushEach
    rw [flushOne_registry]
    dsimp only
    rw [ih]

/-- A shutdown writes back, and takes the registry and the cache out of operation. -/
theorem shutdown_eq (d : Database) :
    d.shutdown = (⟨d.registry.active.length, d.flushDirty.1.1, d.flushDirty.1.2⟩,
      { d.flushDirty.2 with
        registry := d.registry.shutdown.2
        cache := d.cache.setOperational false }) := by
  have hflush : flushDirty { d with registry := d.registry.shutdown.2 } =
      (d.flushDirty.1, { d.flushDirty.2 with registry := d.registry.shutdown.2 }) :=
    flushEach_registry d _ d.dirtyHandles
  have hcache : d.flushDirty.2.cache = d.cache := (d.flushEach_flushed _).2
  unfold shutdown
  dsimp only
  rw [hflush, ← hcache]
  rfl

/-- A cache out of operation takes nothing in. -/
theorem add_of_not_operational {cache : NamedCache Store Record} (h : Handle) (refCount : UInt32)
    (w : Workspace Store Record) (hoff : cache.base.operational = false) :
    cache.add h refCount w = { value := .ok .notCached, cache, workspace := w } := by
  have hbase : cache.base.add h refCount w =
      { value := .ok .notCached, cache := cache.base, workspace := w } := by
    unfold Cache.add
    rw [hoff]
  unfold NamedCache.add NamedCache.followUp
  rw [hbase]
  rfl

/-- **Writing back is complete and takes no notice of the order.**  Of the dirty cached collections,
those that can be written are written and clean, and the others stay as they are; whatever else
there is, is not touched.  In any order it is the same.  A shutdown does this as well and reports
it; after it the cache takes nothing in. -/
theorem flushDirty_exact {τ : Type} (reached : Reached τ d)
    (hnames : ((d.records d.dirtyCached).map (·.name)).Nodup) :
    d.WrittenBack d.flushDirty.1 d.flushDirty.2 ∧
    (∀ hs, hs.Perm d.dirtyCached → (d.flushEach hs).1 = d.flushDirty.1 ∧
      d.flushDirty.2.Like (d.flushEach hs).2) ∧
    d.shutdown.1 = ⟨d.registry.active.length, d.flushDirty.1.1, d.flushDirty.1.2⟩ ∧
    d.shutdown.2 =
      { d.flushDirty.2 with
        registry := d.registry.shutdown.2
        cache := d.cache.setOperational false } ∧
    ∀ h refCount w, d.shutdown.2.cache.add h refCount w =
      { value := .ok .notCached, cache := d.shutdown.2.cache, workspace := w } := by
  have hd := reached.filing
  have hp := dirtyHandles_perm reached.tidy
  obtain ⟨hclosed, hwritten⟩ := hd.writtenBack hnames hp
  have hflush : d.flushDirty = ((d.dirtyHandles.countP d.writable,
      d.dirtyHandles.countP (!d.writable ·)), d.writeAll (d.dirtyHandles.filter d.writable)) :=
    hclosed
  refine ⟨hwritten, fun hs hperm => ?_, congrArg Prod.fst d.shutdown_eq,
    congrArg Prod.snd d.shutdown_eq, fun h refCount w => add_of_not_operational h refCount w ?_⟩
  · obtain ⟨hvisited, -⟩ := hd.writtenBack hnames hperm
    have hsame := hp.trans hperm.symm
    rw [hvisited, hflush]
    have hpool : cleanAll d.workspace.pool (hs.filter d.writable) =
        cleanAll d.workspace.pool (d.dirtyHandles.filter d.writable) := by
      refine Pool.ext_get? fun k => ?_
      rw [get?_cleanAll, get?_cleanAll]
      simp only [(hsame.filter d.writable).mem_iff]
    refine ⟨Prod.ext (hsame.symm.countP_eq _) (hsame.symm.countP_eq _), ?_, ?_⟩
    · unfold writeAll
      rw [hpool]
      rfl
    · exact Store.same_fileAll (hd.apart hnames hp) ((hsame.filter _).filterMap _) d.store
  · rw [d.shutdown_eq]
    rfl

end

/-- A collection that is being written is passed over, and the other one is written. -/
theorem flushDirty_exact_locked :
    let d := ([.resize 2, .create 1 "/busy", .create 2 "/idle", .begin, .lock 0 0 .write].foldl
      Session.perform ({ database := Session.narrowDatabase } : Session Unit)).database
    Reached Unit d ∧ ((d.records d.dirtyCached).map (·.name)).Nodup ∧ d.flushDirty.1 = (1, 1) ∧
      d.WrittenBack (1, 1) d.flushDirty.2 := by
  intro d
  have start : Reached Unit Session.narrowDatabase := .new Session.new_narrow
  have reached : Reached Unit d :=
    Reached.each (s := { database := Session.narrowDatabase }) start _
  have hnames : ((d.records d.dirtyCached).map (·.name)).Nodup := by decide +kernel
  have hcounts : d.flushDirty.1 = (1, 1) := by decide +kernel
  have hwritten := (flushDirty_exact reached hnames).1
  rw [hcounts] at hwritten
  exact ⟨reached, hnames, hcounts, hwritten⟩

end Database
end Folio
