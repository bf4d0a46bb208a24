import Folio.Proofs.Cache.Departures
import Folio.Proofs.Cache.Labels
import Folio.Proofs.Cache.Tenancy

/-! # Names and identities

The index of a cache with names is derived from its entries: every name in it stands for a
cached object that bears it, and as long as no object is added under a name that another
cached object bears, every cached object is what its name stands for.  **`Run.index_derived`**
says so of every state that a cache with names goes through.

Which objects come and go is a matter of the cache without names (`Cache.Departs`,
`Cache.add_entries`); what becomes of the names when they do is a matter of the index alone
(`Backed`, `Listed`).
-/
namespace Folio

open Cache (Cacheable FlushHook Handle Lasting Pool Workspace)

namespace NamedCache

variable {σ α : Type} [Cacheable α]

/-! ## The index -/

/-- The name and the identity of an object. -/
def tag (a : α) : String × ObjectId := (Cacheable.name a, Cacheable.identity a)

section Index
variable {c c' : Cache σ α} {names : Table String ObjectId} {w w' : Workspace σ α}
  {left : List Handle} {h : Handle} {n : String} {id k : ObjectId} {but : Option ObjectId}

/-- An instance that left takes its own entry out of the index and no other. -/
theorem get?_unindex (w : Workspace σ α) (names : Table String ObjectId) (h : Handle) (n : String)
    (k : ObjectId) :
    (unindex w.pool names h).get? n = some k ↔
      names.get? n = some k ∧ w.label? tag h ≠ some (n, k) := by
  unfold unindex Workspace.label? tag
  cases w.pool.get? h with
  | none => simp
  | some i =>
    dsimp only
    split
    · rename_i hlisted
      rw [Table.get?_erase]
      by_cases hn : n = Cacheable.name i.content
      · subst hn
        simp only [ite_true, Option.map_some, ne_eq, Option.some.injEq, Prod.mk.injEq, true_and]
        grind
      · grind
    · grind

theorem get?_unindexed (w : Workspace σ α) (left : List Handle) (names : Table String ObjectId)
    (n : String) (k : ObjectId) :
    (left.foldl (unindex w.pool) names).get? n = some k ↔
      names.get? n = some k ∧ ∀ h ∈ left, w.label? tag h ≠ some (n, k) := by
  induction left generalizing names with
  | nil => simp
  | cons h left ih => rw [List.foldl_cons, ih, get?_unindex, List.forall_mem_cons, and_assoc]

/-- An instance has one name and one identity. -/
theorem tag?_inj {m : String} {k' : ObjectId} (hn : w.label? tag h = some (n, k))
    (hm : w.label? tag h = some (m, k')) : n = m ∧ k = k' :=
  Prod.mk.inj (Option.some.inj (hn.symm.trans hm))

/-- The cached objects keep their names and identities. -/
def Stable (c : Cache σ α) (w w' : Workspace σ α) : Prop :=
  ∀ k h, c.entries.get? k = some h → ∀ t, w.label? tag h = some t → w'.label? tag h = some t

/-- Every object is cached under its identity. -/
def Tagged (c : Cache σ α) (w : Workspace σ α) : Prop :=
  ∀ k h, c.entries.get? k = some h → ∃ n, w.label? tag h = some (n, k)

/-- Every name stands for a cached object that bears it. -/
def Backed (names : Table String ObjectId) (c : Cache σ α) (w : Workspace σ α) : Prop :=
  ∀ n k, names.get? n = some k → ∃ h, c.entries.get? k = some h ∧ w.label? tag h = some (n, k)

/-- Every cached object, except perhaps one, is what its name stands for. -/
def Listed (but : Option ObjectId) (names : Table String ObjectId) (c : Cache σ α)
    (w : Workspace σ α) : Prop :=
  ∀ k h n, but ≠ some k → c.entries.get? k = some h → w.label? tag h = some (n, k) →
    names.get? n = some k

/-! ### When objects leave -/

theorem Tagged.depart (ht : Tagged c w) (hd : c.Departs left c') (hw : Stable c w w') :
    Tagged c' w' := fun k h hget =>
  let hold := hd.comes k h hget
  (ht k h hold).imp fun _ hn => hw k h hold _ hn

/-- A name goes with the object that bears it. -/
theorem Backed.depart (hb : Backed names c w) (hd : c.Departs left c') (hw : Stable c w w') :
    Backed (left.foldl (unindex w'.pool) names) c' w' := by
  intro n k hk
  obtain ⟨hk, hleft⟩ := (get?_unindexed w' left names n k).1 hk
  obtain ⟨h, hget, htag⟩ := hb n k hk
  have htag' := hw k h hget _ htag
  exact ⟨h, hd.stays k h hget fun hm => hleft h hm htag', htag'⟩

/-- No name goes with an object that leaves if another one bears it. -/
theorem Listed.depart (hl : Listed but names c w) (ht : Tagged c w) (hd : c.Departs left c')
    (hw : Stable c w w') : Listed but (left.foldl (unindex w'.pool) names) c' w' := by
  intro k h n hbut hget htag
  have hold := hd.comes k h hget
  obtain ⟨m, hm⟩ := ht k h hold
  obtain ⟨rfl, -⟩ := tag?_inj (hw k h hold _ hm) htag
  refine (get?_unindexed w' left names m k).2 ⟨hl k h m hbut hold hm, fun g hg hgtag => ?_⟩
  -- whoever left was cached under its identity, which is now free
  obtain ⟨k', hk', hnone⟩ := hd.gone g hg
  obtain ⟨m', hm'⟩ := ht k' g hk'
  obtain ⟨-, rfl⟩ := tag?_inj (hw k' g hk' _ hm') hgtag
  rw [hget] at hnone
  cases hnone

/-! ### When an object comes -/

theorem Tagged.enter (ht : Tagged c w) (he : c.Enters id h c')
    (htag : w.label? tag h = some (n, id)) : Tagged c' w := by
  intro k g hget
  rcases he.comes hget with ⟨rfl, rfl⟩ | hold
  · exact ⟨n, htag⟩
  · exact ht k g hold

theorem Backed.enter (hb : Backed names c w) (hfree : c.entries.get? id = none)
    (he : c.Enters id h c') : Backed names c' w := by
  intro m k hk
  obtain ⟨g, hget, htag⟩ := hb m k hk
  have hne : k ≠ id := by
    rintro rfl
    rw [hfree] at hget
    cases hget
  exact ⟨g, (he.get?_of_ne hne).trans hget, htag⟩

theorem Listed.enter (hl : Listed none names c w) (he : c.Enters id h c') :
    Listed (some id) names c' w := by
  intro k g m hk hget htag
  rcases he.comes hget with ⟨rfl, -⟩ | hold
  · exact absurd rfl hk
  · exact hl k g m nofun hold htag

/-- The name of a cached object may be entered in the index. -/
theorem Backed.insert (hb : Backed names c w) (hget : c.entries.get? id = some h)
    (htag : w.label? tag h = some (n, id)) : Backed (names.insert n id) c w := by
  intro m k hk
  rcases Table.get?_insert_cases hk with ⟨rfl, rfl⟩ | ⟨-, hold⟩
  · exact ⟨h, hget, htag⟩
  · exact hb m k hold

/-- A name that nobody else bears is taken from nobody. -/
theorem Listed.insert (hl : Listed (some id) names c w) (hget : c.entries.get? id = some h)
    (htag : w.label? tag h = some (n, id))
    (hfresh : ∀ k g, c.entries.get? k = some g → w.label? tag g = some (n, k) → k = id) :
    Listed none (names.insert n id) c w := by
  intro k g m _ hk hm
  rw [Table.get?_insert]
  by_cases hkid : k = id
  · subst hkid
    obtain rfl := Option.some.inj (hget.symm.trans hk)
    rw [if_pos (tag?_inj hm htag).1]
  · have hmn : m ≠ n := fun heq => hkid (hfresh k g hk (heq ▸ hm))
    rw [if_neg hmn]
    exact hl k g m (fun heq => hkid (Option.some.inj heq).symm) hk hm

theorem Listed.of_absent (hl : Listed (some id) names c w) (hnone : c.entries.get? id = none) :
    Listed none names c w := by
  intro k g m _ hk hm
  refine hl k g m (fun heq => ?_) hk hm
  rw [← Option.some.inj heq, hnone] at hk
  cases hk

/-! ### All together -/

/-- **The index is derived from the entries** as far as it goes; and under a strict discipline it
lists all of them, except perhaps one. -/
structure Indexed (strict : Prop) (but : Option ObjectId) (names : Table String ObjectId)
    (c : Cache σ α) (w : Workspace σ α) : Prop where
  tagged : Tagged c w
  backed : Backed names c w
  listed : strict → Listed but names c w

variable {strict : Prop}

theorem Indexed.depart (hi : Indexed strict but names c w) (hd : c.Departs left c')
    (hw : Stable c w w') : Indexed strict but (left.foldl (unindex w'.pool) names) c' w' :=
  ⟨hi.tagged.depart hd hw, hi.backed.depart hd hw, fun hs => (hi.listed hs).depart hi.tagged hd hw⟩

/-- Nobody comes and nobody leaves. -/
theorem Indexed.rest (hi : Indexed strict but names c w) (hentries : c'.entries = c.entries)
    (hw : Stable c w w') : Indexed strict but names c' w' :=
  hi.depart (Cache.departs_nobody hentries) hw

theorem Indexed.enter (hi : Indexed strict none names c w) (hfree : c.entries.get? id = none)
    (he : c.Enters id h c') (htag : w.label? tag h = some (n, id)) :
    Indexed strict (some id) names c' w :=
  ⟨hi.tagged.enter he htag, hi.backed.enter hfree he, fun hs => (hi.listed hs).enter he⟩

theorem Indexed.insert (hi : Indexed strict (some id) names c w) (hget : c.entries.get? id = some h)
    (htag : w.label? tag h = some (n, id))
    (hfresh : strict →
      ∀ k g, c.entries.get? k = some g → w.label? tag g = some (n, k) → k = id) :
    Indexed strict none (names.insert n id) c w :=
  ⟨hi.tagged, hi.backed.insert hget htag, fun hs => (hi.listed hs).insert hget htag (hfresh hs)⟩

theorem Indexed.of_absent (hi : Indexed strict (some id) names c w)
    (hnone : c.entries.get? id = none) : Indexed strict none names c w :=
  ⟨hi.tagged, hi.backed, fun hs => (hi.listed hs).of_absent hnone⟩

end Index

/-! ## Operations -/

/-- An object is added under a name that no other cached object bears. -/
def Unclaimed (c : NamedCache σ α) (w : Workspace σ α) : Operation → Prop
  | .add h _ => ∀ k g n id, c.base.entries.get? k = some g → w.label? tag g = some (n, k) →
      w.label? tag h = some (n, id) → k = id
  | _ => True

theorem unclaimed_add_iff {c : NamedCache σ α} {w : Workspace σ α} {h : Handle}
    {refCount : UInt32} :
    (∀ e ∈ c.base.entries.entries, ∀ t ∈ w.label? tag h,
      w.label? tag e.2 = some (t.1, e.1) → e.1 = t.2) ↔ Unclaimed c w (.add h refCount) := by
  constructor
  · intro hall k g n id hk hg hh
    exact hall (k, g) ((Table.mem_entries_iff ..).2 hk) (n, id) hh hg
  · intro hunclaimed e he t ht hg
    exact hunclaimed e.1 e.2 t.1 t.2 ((Table.mem_entries_iff ..).1 he) hg ht

instance (c : NamedCache σ α) (w : Workspace σ α) : DecidablePred (Unclaimed c w)
  | .add _ _ => decidable_of_iff _ unclaimed_add_iff
  | .get _ | .getByName _ | .checkout _ | .checkoutByName _ | .remove _ | .removeByName _ | .evict
  | .resize _ | .setOperational _ => instDecidableTrue

section Operations
variable {strict : Prop} {c : NamedCache σ α} {w w' : Workspace σ α}

theorem stable_of_retains {b : Cache σ α} (hw : w.Retains tag w') : Stable b w w' :=
  fun _ h _ t ht => hw h t ht

theorem tag?_of_identity? {h : Handle} {id : ObjectId} (hid : w.identity? h = some id) :
    ∃ n, w.label? tag h = some (n, id) := by
  obtain ⟨i, hi, rfl⟩ := Option.map_eq_some_iff.1 hid
  exact ⟨Cacheable.name i.content, by rw [Workspace.label?, hi]; rfl⟩

section Adding
variable {h : Handle} {refCount : UInt32} {n : String} {id : ObjectId}
  {names : Table String ObjectId}
  (hnames : (c.base.add h refCount w).left.foldl
    (unindex (c.base.add h refCount w).workspace.pool) c.names = names)
include hnames

theorem names_add_taken (htag : w.label? tag h = some (n, id))
    (hvalue : (c.base.add h refCount w).value = .ok .cached ∨
      (c.base.add h refCount w).value = .ok .replaced) :
    (c.add h refCount w).cache.names = names.insert n id := by
  obtain ⟨i, hi, hti⟩ := Option.map_eq_some_iff.1 htag
  obtain ⟨rfl, rfl⟩ := Prod.mk.inj hti
  unfold add followUp
  rcases hvalue with hvalue | hvalue
  all_goals simp only [hvalue, hi, hnames]

theorem names_add_refused
    (hvalue : (c.base.add h refCount w).value = .ok .notCached ∨
      ∃ e, (c.base.add h refCount w).value = .error e) :
    (c.add h refCount w).cache.names = names := by
  unfold add followUp
  rcases hvalue with hvalue | ⟨e, hvalue⟩
  all_goals simp only [hvalue, hnames]

end Adding

/-- Who bears the name of an object that was added bore it before, or is that object. -/
theorem Tagged.fresh {b b' : Cache σ α} {n : String} {id : ObjectId} (ht : Tagged b w)
    (hw : w.Retains tag w')
    (hunclaimed : ∀ k g, b.entries.get? k = some g → w.label? tag g = some (n, k) → k = id)
    (hcomes : ∀ k g, b'.entries.get? k = some g → k = id ∨ b.entries.get? k = some g) (k : ObjectId)
    (g : Handle) (hget : b'.entries.get? k = some g) (hg : w'.label? tag g = some (n, k)) :
    k = id := by
  rcases hcomes k g hget with rfl | hold
  · rfl
  · obtain ⟨m, hm⟩ := ht k g hold
    obtain ⟨rfl, -⟩ := tag?_inj (hw g _ hm) hg
    exact hunclaimed k g hold hm

/-- **Adding an object** enters its name if it is taken, after the names of those that left are
gone. -/
theorem Indexed.add (hi : Indexed strict none c.names c.base w)
    (hl : Lasting (tag (α := α)) c.base.flushHook) {h : Handle} {refCount : UInt32}
    (hunclaimed : strict → Unclaimed c w (.add h refCount)) :
    Indexed strict none (c.add h refCount w).cache.names (c.add h refCount w).cache.base
      (c.add h refCount w).workspace := by
  have hw := Cache.retains_add hl h refCount w
  obtain ⟨hbase, hworkspace⟩ := c.add_base h refCount w
  rw [hbase, hworkspace]
  rcases c.base.add_entries h refCount w with ⟨hvalue, hleft, hcache⟩ | ⟨id, hid, htaken⟩
  · rw [names_add_refused rfl (Or.inl hvalue), hleft, hcache]
    exact hi.rest rfl (stable_of_retains hw)
  obtain ⟨n, htag⟩ := tag?_of_identity? hid
  have htag' := hw h _ htag
  have hfresh (hcomes : ∀ k g, (c.base.add h refCount w).cache.entries.get? k = some g →
      k = id ∨ c.base.entries.get? k = some g) (hs : strict) :=
    hi.tagged.fresh hw (fun k g hk hg => hunclaimed hs k g n id hk hg htag) hcomes
  rcases htaken with ⟨previous, hold, hvalue, hleft, hentries⟩ | ⟨hnew, hdeparts, hvalue⟩
  -- the old object leaves and the new one comes
  · have hgone : Cache.Departs c.base [previous] (c.base.drop id) := Cache.departs_drop hold rfl
    have hfree : (c.base.drop id).entries.get? id = none := by simp [Cache.drop]
    have hcome := Cache.enters_insert hentries
    have hlast := (hi.depart hgone (stable_of_retains hw)).enter hfree hcome htag'
    rw [names_add_taken rfl htag (Or.inr hvalue), hleft]
    refine hlast.insert hcome.get?_self htag' (hfresh fun k g hk => ?_)
    exact (hcome.comes hk).imp And.left (hgone.comes k g)
  -- the new object comes, and then others leave or itself
  · have hcome := c.base.enters_entered id h
    have hlast := (hi.enter hnew hcome htag).depart hdeparts (stable_of_retains hw)
    rcases hvalue with ⟨hvalue, hin⟩ | ⟨hvalue, hout⟩
    · rw [names_add_taken rfl htag (Or.inl hvalue)]
      refine hlast.insert hin htag' (hfresh fun k g hk => ?_)
      exact (hcome.comes (hdeparts.comes k g hk)).imp_left And.left
    · rw [names_add_refused rfl (Or.inr hvalue)]
      exact hlast.of_absent (by simp [hout])

/-- A pin is no part of the content. -/
theorem retains_checkout (w : Workspace σ α) (found : Option Handle) :
    w.Retains (tag (α := α)) (found.elim w (w.modify · Cache.Instance.pin)) := by
  cases found with
  | none => exact .refl w
  | some h => exact w.retains_modify h fun _ => rfl

theorem Indexed.get (hi : Indexed strict none c.names c.base w) (id : ObjectId)
    (hw : w.Retains tag w') : Indexed strict none (c.get id).2.names (c.get id).2.base w' :=
  hi.rest (c.base.entries_get id) (stable_of_retains hw)

theorem Indexed.getByName (hi : Indexed strict none c.names c.base w) (name : String)
    (hw : w.Retains tag w') :
    Indexed strict none (c.getByName name).2.names (c.getByName name).2.base w' := by
  unfold NamedCache.getByName
  split
  · exact hi.get _ hw
  · exact hi.rest rfl (stable_of_retains hw)

theorem Indexed.remove (hi : Indexed strict none c.names c.base w) (id : ObjectId) :
    Indexed strict none (c.remove id w).2.names (c.remove id w).2.base w :=
  hi.depart (c.base.departs_remove id) (stable_of_retains (.refl w))

/-- **Every operation leaves the index as it has to be.** -/
theorem Indexed.perform (hi : Indexed strict none c.names c.base w)
    (hl : Lasting (tag (α := α)) c.base.flushHook) {op : Operation}
    (hunclaimed : strict → Unclaimed c w op) :
    Indexed strict none (c.perform w op).1.names (c.perform w op).1.base (c.perform w op).2 := by
  cases op with
  | get id => exact hi.get id (.refl w)
  | getByName name => exact hi.getByName name (.refl w)
  | checkout id => exact hi.get id (retains_checkout w _)
  | checkoutByName name => exact hi.getByName name (retains_checkout w _)
  | add h refCount => exact hi.add hl hunclaimed
  | remove id => exact hi.remove id
  | removeByName name =>
    simp only [NamedCache.perform, removeByName]
    split
    · exact hi.remove _
    · exact hi
  | evict =>
    exact hi.depart (Cache.departs_evictionPass c.base none w)
      (stable_of_retains (Cache.retains_evict hl w))
  | resize capacity =>
    exact hi.depart (Cache.departs_resize c.base capacity w)
      (stable_of_retains (Cache.retains_resize hl capacity w))
  | setOperational operational => exact hi.rest rfl (stable_of_retains (.refl w))

end Operations

/-! ## Runs -/

/-- **The states that a cache with names goes through** when its owner keeps to a rule.  Between two
operations the others may do what they like, as long as the cached objects keep their names and
identities. -/
inductive Run (settings : Cache.Settings) (hook : Option (FlushHook σ α))
    (rule : NamedCache σ α → Workspace σ α → Operation → Prop) :
    NamedCache σ α → Workspace σ α → Prop
  | new (name : String) (w : Workspace σ α) :
      Run settings hook rule (newHooked name settings hook) w
  | attach {c c' : NamedCache σ α} {w w' : Workspace σ α} (before : Run settings hook rule c w)
      (registered : c.attach w = .ok (c', w')) : Run settings hook rule c' w'
  | perform {c : NamedCache σ α} {w : Workspace σ α} (before : Run settings hook rule c w)
      (op : Operation) (permitted : rule c w op) :
      Run settings hook rule (c.perform w op).1 (c.perform w op).2
  | meanwhile {c : NamedCache σ α} {w w' : Workspace σ α} (before : Run settings hook rule c w)
      (kept : Stable c.base w w') : Run settings hook rule c w'

section Runs
variable {settings : Cache.Settings} {hook : Option (FlushHook σ α)}
  {rule : NamedCache σ α → Workspace σ α → Operation → Prop} {c : NamedCache σ α}
  {w : Workspace σ α}

omit [Cacheable α] in
theorem attach_eq {c' : NamedCache σ α} {w' : Workspace σ α} (h : c.attach w = .ok (c', w')) :
    ∃ b, c' = { c with base := { c.base with attached := true } } ∧ w' = w.setBudget b := by
  unfold attach at h
  cases hbase : c.base.attach w with
  | error e =>
    rw [hbase] at h
    cases h
  | ok attached =>
    obtain ⟨base, w'⟩ := attached
    obtain ⟨b, rfl, rfl, -⟩ := Cache.attach_eq hbase
    rw [hbase] at h
    cases h
    exact ⟨b, rfl, rfl⟩

/-- The hook stays with the cache. -/
theorem flushHook_perform (c : NamedCache σ α) (w : Workspace σ α) (op : Operation) :
    (c.perform w op).1.base.flushHook = c.base.flushHook := by
  rw [(c.perform_base w op).1]
  cases op.base? c with
  | none => rfl
  | some o => exact (Cache.perform_wiring c.base w o).1

theorem Run.indexed (hl : Lasting (tag (α := α)) hook) (run : Run settings hook rule c w) :
    Indexed (∀ c w op, rule c w op → Unclaimed c w op) none c.names c.base w ∧
      c.base.flushHook = hook := by
  induction run with
  | new name w =>
    have hnone (k : ObjectId) : (Cache.newHooked name settings hook).entries.get? k = none := by
      rw [Cache.newHooked_eq]
      rfl
    refine ⟨⟨fun k h hget => ?_, fun n k hk => ?_, fun _ k h n _ hget => ?_⟩, ?_⟩
    · rw [newHooked, hnone] at hget
      cases hget
    · cases hk
    · rw [newHooked, hnone] at hget
      cases hget
    · rw [newHooked, Cache.newHooked_eq]
  | attach before registered ih =>
    obtain ⟨b, rfl, rfl⟩ := attach_eq registered
    exact ⟨ih.1.rest rfl fun _ _ _ _ ht => ht, ih.2⟩
  | @perform c w before op permitted ih =>
    exact ⟨ih.1.perform (ih.2 ▸ hl) fun hs => hs c w op permitted,
      (c.flushHook_perform w op).trans ih.2⟩
  | meanwhile before kept ih => exact ⟨ih.1.rest rfl kept, ih.2⟩

/-- The index has as many names as there are objects if it lists them all. -/
theorem Indexed.size_eq {strict : Prop} {names : Table String ObjectId} {b : Cache σ α}
    (hi : Indexed strict none names b w) (hs : strict) : names.size = b.size := by
  refine Table.size_eq_of_values (fun n n' k hn hn' => ?_) fun k => ⟨?_, fun hk => ?_⟩
  · obtain ⟨h, hget, htag⟩ := hi.backed n k hn
    obtain ⟨h', hget', htag'⟩ := hi.backed n' k hn'
    obtain rfl := Option.some.inj (hget.symm.trans hget')
    exact (tag?_inj htag htag').1
  · rintro ⟨n, hn⟩
    obtain ⟨h, hget, -⟩ := hi.backed n k hn
    rw [hget]
    rfl
  · obtain ⟨h, hget⟩ := Option.isSome_iff_exists.1 hk
    obtain ⟨n, htag⟩ := hi.tagged k h hget
    exact ⟨n, hi.listed hs k h n nofun hget htag⟩

/-- **The index is derived from the entries.**  Whatever the owner does, every name in it stands for
a cached object that bears it.  If he adds no object under a name that another cached object bears,
every cached object is what its name stands for; so it is found by its name as it is by its
identity, and there are as many names as objects. -/
theorem Run.index_derived (hl : Lasting (tag (α := α)) hook) (run : Run settings hook rule c w) :
    (∀ n k, c.lookupName n = some k → ∃ h i, c.base.entries.get? k = some h ∧
      w.pool.get? h = some i ∧ Cacheable.name i.content = n ∧ Cacheable.identity i.content = k) ∧
    ((∀ c w op, rule c w op → Unclaimed c w op) →
      (∀ k h, c.base.entries.get? k = some h → ∃ i, w.pool.get? h = some i ∧
        Cacheable.identity i.content = k ∧ c.lookupName (Cacheable.name i.content) = some k ∧
        (c.getByName (Cacheable.name i.content)).1 = some h ∧ (c.get k).1 = some h) ∧
      (∀ n, (c.getByName n).1 = (c.lookupName n).bind fun k => (c.get k).1) ∧
      c.names.size = c.base.size) := by
  obtain ⟨hi, -⟩ := run.indexed hl
  refine ⟨fun n k hk => ?_, fun hs => ⟨fun k h hget => ?_, fun n => ?_, hi.size_eq hs⟩⟩
  · obtain ⟨h, hget, htag⟩ := hi.backed n k hk
    obtain ⟨i, hpool, hti⟩ := Option.map_eq_some_iff.1 htag
    obtain ⟨hname, hid⟩ := Prod.mk.inj hti
    exact ⟨h, i, hget, hpool, hname, hid⟩
  · obtain ⟨n, htag⟩ := hi.tagged k h hget
    obtain ⟨i, hpool, hti⟩ := Option.map_eq_some_iff.1 htag
    obtain ⟨rfl, hid⟩ := Prod.mk.inj hti
    have hlookup : c.lookupName (Cacheable.name i.content) = some k :=
      hi.listed hs k h _ nofun hget htag
    have hfound : (c.get k).1 = some h := by simp [NamedCache.get, Cache.get, hget]
    exact ⟨i, hpool, hid, hlookup, by rw [NamedCache.getByName, hlookup]; exact hfound, hfound⟩
  · unfold NamedCache.getByName
    cases c.lookupName n <;> rfl

end Runs

/-! ## An object under a new name -/

theorem lasting_tag_record : Lasting (tag (α := Record)) (some Store.flushHook) := by
  refine ⟨fun _ => rfl, ?_⟩
  rintro _ ⟨⟩ i s
  unfold Store.flushHook
  split <;> rfl

/-- A collection in memory twice, before and after it was renamed, and another one. -/
def renamed : Workspace Store Record where
  pool := ⟨#[{ content := { id := 7, name := "/db" } }, { content := { id := 8, name := "/tmp" } },
    { content := { id := 7, name := "/base" } }]⟩
  outside := {}

/-- The new name takes the place of the old one. -/
theorem Run.index_derived_renamed : ∃ (c : NamedCache Store Record) (w : Workspace Store Record),
    Run {} (some Store.flushHook) Unclaimed c w ∧ c.lookupName "/db" = none ∧
    c.lookupName "/base" = some 7 ∧ (c.getByName "/base").1 = some 2 ∧
    c.names.size = c.base.size := by
  have opened : Run {} (some Store.flushHook) Unclaimed
      (newHooked "collections" {} (some Store.flushHook)) renamed := .new "collections" renamed
  have first := (opened.perform (.add 0 0) (by decide)).perform (.add 1 0) (by decide)
  have run := first.perform (.add 2 0) (by decide)
  obtain ⟨-, hlisted⟩ := run.index_derived lasting_tag_record
  exact ⟨_, _, run, by decide, by decide, by decide, (hlisted fun _ _ _ h => h).2.2⟩

end NamedCache
end Folio
