import Folio.Proofs.Database.Reach

/-! # Opening by identity

The identity that a record is filed under and the one that is written in it are two things, and
only the first is looked at when a record is loaded.  So what is opened under an identity need not
have it: `Reached.opens_iff` says of every state of a database, whatever bytes were filed in its
store, that an opening under `id` opens the collection `id` and displaces no other one exactly when
that collection is cached or its own record is filed under `id`.
-/
namespace Folio

open Cache (Handle Instance Pool Workspace)
open NamedCache (tag)
open Holdings

namespace Database

section
variable {d d' : Database} {id : ObjectId} {h : Handle}

/-! ## Bringing in -/

theorem tag?_loading (d : Database) (c : Collection) :
    (d.loading c).workspace.label? tag d.holdings.fresh = some (tag c.content) := by
  rw [loading, Workspace.label?, Workspace.setPool, Pool.get?_add]
  exact congrArg (Option.map _) (if_pos rfl)

/-- Who has a tag has its identity. -/
theorem identity?_of_tag? {w : Workspace Store Record} {r : Record}
    (htag : w.label? tag h = some (tag r)) : w.identity? h = some r.id := by
  obtain ⟨c, hc, heq⟩ := Option.map_eq_some_iff.1 htag
  exact Option.map_eq_some_iff.2 ⟨c, hc, (Prod.mk.inj heq).2⟩

/-- An instance is given out unless the cache has no room for it. -/
theorem bringIn_ok {c : Collection} (hok : (d.bringIn c).1 = .ok h) :
    h = d.holdings.fresh ∧ (∀ e, (d.asked c).value ≠ .error e) ∧
      (d.bringIn c).2.cache = (d.asked c).cache ∧
      (d.asked c).workspace.Retains tag (d.bringIn c).2.workspace := by
  have hdecides {value : Except Cache.Error Cache.Added} (hvalue : (d.asked c).value = value) :
      (d.cache.add (d.workspace.pool.add c).1 1
        (d.workspace.setPool (d.workspace.pool.add c).2)).value = value := hvalue
  unfold bringIn at hok ⊢
  cases hvalue : (d.asked c).value with
  | error e =>
    simp only [hdecides hvalue] at hok
    cases hok
  | ok added =>
    have htaken (e : Cache.Error) :
        (Except.ok added : Except Cache.Error Cache.Added) ≠ .error e := by
      rintro ⟨⟩
    cases added with
    | notCached =>
      simp only [hdecides hvalue] at hok ⊢
      cases hok
      exact ⟨rfl, htaken, rfl, Workspace.retains_modify _ _ fun _ => rfl⟩
    | cached =>
      simp only [hdecides hvalue] at hok ⊢
      cases hok
      exact ⟨rfl, htaken, rfl, .refl _⟩
    | replaced =>
      simp only [hdecides hvalue] at hok ⊢
      cases hok
      exact ⟨rfl, htaken, rfl, .refl _⟩

/-- **An instance that is not turned away** is cached under its identity if the cache is in
operation, and nobody else comes with it. -/
theorem asked_entries {c : Collection} (htaken : ∀ e, (d.asked c).value ≠ .error e) :
    (d.cache.base.operational = true →
      (d.asked c).cache.base.entries.get? c.content.id = some d.holdings.fresh) ∧
    ∀ k j, (d.asked c).cache.base.entries.get? k = some j →
      k = c.content.id ∧ j = d.holdings.fresh ∨ d.cache.base.entries.get? k = some j := by
  obtain ⟨hvalue, hbase, -⟩ := add_base d.cache d.holdings.fresh 1 (d.loading c).workspace
  have hself := identity?_of_tag? (d.tag?_loading c)
  rw [asked, hvalue] at htaken
  rw [asked, hbase]
  rcases Cache.add_cases d.cache.base d.holdings.fresh 1 (d.loading c).workspace with
    ⟨hout, hadd⟩ | ⟨id, w, -, hid, -, hadd⟩
  · rw [hself] at hout
    rw [hadd]
    refine ⟨fun hop => ?_, fun k j hget => Or.inr hget⟩
    rcases hout with hout | hout
    · rw [hop] at hout
      cases hout
    · cases hout
  obtain rfl := Option.some.inj (hself.symm.trans hid)
  have henters := d.cache.base.enters_entered c.content.id d.holdings.fresh
  rcases hadd with ⟨previous, -, hadd⟩ | ⟨-, ⟨-, hadd⟩ | ⟨-, hadd⟩⟩
  all_goals rw [hadd] at htaken ⊢
  · exact ⟨fun _ => henters.get?_self, fun k j => henters.comes⟩
  · exact ⟨fun _ => henters.get?_self, fun k j => henters.comes⟩
  · obtain ⟨hdeparts, hroom⟩ := Cache.departs_makeRoom henters.get?_self w
    refine ⟨fun _ => ?_, fun k j hget => henters.comes (hdeparts.comes k j hget)⟩
    · rcases hroom with ⟨-, hin⟩ | ⟨⟨e, herror⟩, -⟩
      · exact hin
      · exact absurd herror (htaken e)

/-- **What is brought in has its name and its identity.** -/
theorem tag?_bringIn (hd : d.Filing) {c : Collection} (hok : (d.bringIn c).1 = .ok h) :
    (d.bringIn c).2.workspace.label? tag h = some (tag c.content) := by
  obtain ⟨rfl, -, -, hkept⟩ := bringIn_ok hok
  have hadded := Cache.retains_add (hd.hook ▸ NamedCache.lasting_tag_record) d.holdings.fresh 1
    (d.loading c).workspace
  obtain ⟨-, -, hworkspace⟩ := add_base d.cache d.holdings.fresh 1 (d.loading c).workspace
  rw [← hworkspace] at hadded
  exact hkept _ _ (hadded _ _ (d.tag?_loading c))

/-! ## Opening -/

theorem checkout_of_entry (hentry : d.cache.base.entries.get? id = some h) :
    (d.checkout id).1 = some h ∧
      (d.checkout id).2.cache.base.entries = d.cache.base.entries ∧
      (d.checkout id).2.workspace = d.workspace.modify h Instance.pin := by
  obtain ⟨hfound, hbase⟩ := get_base d.cache id
  refine ⟨hfound.trans hentry, ?_, ?_⟩
  · exact (congrArg Cache.entries hbase).trans (d.cache.base.entries_get id)
  · show ((d.cache.get id).1.elim d.workspace (d.workspace.modify · Instance.pin)) = _
    rw [hfound, hentry]
    rfl

/-- **What is cached is opened by one more pin.** -/
theorem openById_of_entry (hentry : d.cache.base.entries.get? id = some h) :
    (d.openById id).1 = .ok (some h) ∧
      (d.openById id).2.cache.base.entries = d.cache.base.entries ∧
      (d.openById id).2.workspace = d.workspace.modify h Instance.pin := by
  obtain ⟨hfound, hcache, hworkspace⟩ := checkout_of_entry hentry
  rw [openById_eq]
  rcases hlook : d.checkout id with ⟨found, d₁⟩
  rw [hlook] at hfound hcache hworkspace
  obtain rfl : found = some h := hfound
  exact ⟨rfl, hcache, hworkspace⟩

/-- The databases differ in the accounts of the cache at most. -/
structure Alike (d d' : Database) : Prop where
  entries : d'.cache.base.entries = d.cache.base.entries
  hook : d'.cache.base.flushHook = d.cache.base.flushHook
  operational : d'.cache.base.operational = d.cache.base.operational
  names : d'.cache.names = d.cache.names
  workspace : d'.workspace = d.workspace

theorem Filing.alike (hd : d.Filing) (ha : Alike d d') : d'.Filing := by
  refine ⟨ha.hook.trans hd.hook, ?_⟩
  rw [ha.workspace, ha.names]
  exact hd.indexed.rest ha.entries (NamedCache.stable_of_retains (.refl _))

theorem checkout_of_absent (hnew : d.cache.base.entries.get? id = none) :
    (d.checkout id).1 = none ∧ Alike d (d.checkout id).2 := by
  obtain ⟨hfound, hbase⟩ := get_base d.cache id
  obtain ⟨hhook, hoperational⟩ := Cache.perform_wiring d.cache.base d.workspace (.get id)
  refine ⟨hfound.trans hnew, ?_, ?_, ?_, rfl, ?_⟩
  · exact (congrArg Cache.entries hbase).trans (d.cache.base.entries_get id)
  · exact (congrArg Cache.flushHook hbase).trans hhook
  · exact (congrArg Cache.operational hbase).trans hoperational
  · show ((d.cache.get id).1.elim d.workspace (d.workspace.modify · Instance.pin)) = _
    rw [hfound, hnew]
    rfl

/-- **What is not cached is loaded**, after two looks in vain. -/
theorem openById_of_absent (hnew : d.cache.base.entries.get? id = none) :
    ∃ d', Alike d d' ∧ d.openById id = d'.loadStored id := by
  obtain ⟨hfound, hlook⟩ := checkout_of_absent hnew
  rw [openById_eq]
  rcases hfirst : d.checkout id with ⟨found, d₁⟩
  rw [hfirst] at hfound hlook
  obtain rfl : found = none := hfound
  have hnew₁ : d₁.cache.base.entries.get? id = none := by
    rw [hlook.entries]
    exact hnew
  obtain ⟨hfound', hlook'⟩ := checkout_of_absent hnew₁
  show ∃ d', Alike d d' ∧ d₁.fetch id = d'.loadStored id
  unfold fetch
  rcases hsecond : d₁.checkout id with ⟨found', d₂⟩
  rw [hsecond] at hfound' hlook'
  obtain rfl : found' = none := hfound'
  exact ⟨d₂, ⟨hlook'.entries.trans hlook.entries, hlook'.hook.trans hlook.hook,
    hlook'.operational.trans hlook.operational, hlook'.names.trans hlook.names,
    hlook'.workspace.trans hlook.workspace⟩, rfl⟩

/-- What is loaded was read off the bytes that are filed under the identity. -/
theorem loadStored_ok (hok : (d.loadStored id).1 = .ok (some h)) :
    ∃ block r, d.store.raw? id = some block ∧ Record.ofBytes block = .ok r ∧
      (d.bringIn (Collection.ofRecord r d.settings.lockTimeout)).1 = .ok h ∧
      (d.loadStored id).2 = (d.bringIn (Collection.ofRecord r d.settings.lockTimeout)).2 := by
  unfold loadStored Store.load at hok ⊢
  cases hraw : d.store.raw? id with
  | none =>
    rw [hraw] at hok
    cases hok
  | some block =>
    cases hread : Record.ofBytes block with
    | error e =>
      simp only [hraw, Collection.ofBytes, hread] at hok
      cases hok
    | ok r =>
      simp only [hraw, Collection.ofBytes, hread, Except.map] at hok ⊢
      cases hresult : (d.bringIn (Collection.ofRecord r d.settings.lockTimeout)).1 with
      | error e =>
        rw [hresult] at hok
        cases hok
      | ok g =>
        rw [hresult] at hok
        cases hok
        exact ⟨block, r, rfl, hread, hresult, rfl⟩

end

/-! ## What is opened -/

/-- **A collection is opened.**  It has the identity that was asked for; it is the cached one if the
cache has it or takes it, and whoever opens it next is given the same instance with one more pin.
Everything else that is cached was cached before, and no instance has taken another one's place. -/
structure Opens (d d' : Database) (id : ObjectId) (h : Handle) : Prop where
  identity : d'.workspace.identity? h = some id
  cached : d.cache.base.contains id = true ∨ d.cache.base.operational = true →
    d'.cache.base.entries.get? id = some h
  others : ∀ k j, d'.cache.base.entries.get? k = some j →
    d.cache.base.entries.get? k = some j ∨ d.cache.base.entries.get? k = none ∧ k = id ∧ j = h
  again : d.cache.base.contains id = true ∨ d.cache.base.operational = true →
    (d'.openById id).1 = .ok (some h) ∧
      ∃ c, d'.collection? h = some c ∧ (d'.openById id).2.collection? h = some c.pin

/-- Its own record is filed under an identity. -/
def HasOwn (d : Database) (id : ObjectId) : Prop :=
  ∃ block r, d.store.raw? id = some block ∧ Record.ofBytes block = .ok r ∧ r.id = id

section
variable {τ : Type} {d d' : Database} {id : ObjectId} {h : Handle}

theorem opened_again (hid : d'.workspace.identity? h = some id)
    (hentry : d'.cache.base.entries.get? id = some h) :
    (d'.openById id).1 = .ok (some h) ∧
      ∃ c, d'.collection? h = some c ∧ (d'.openById id).2.collection? h = some c.pin := by
  obtain ⟨hok, -, hworkspace⟩ := openById_of_entry hentry
  obtain ⟨c, hc, -⟩ := Option.map_eq_some_iff.1 hid
  refine ⟨hok, c, hc, ?_⟩
  rw [collection?, hworkspace, Workspace.modify, Workspace.setPool, Pool.get?_modify, if_pos rfl,
    hc]
  rfl

/-- What is cached is opened. -/
theorem Filing.opens_of_entry (hd : d.Filing) (hentry : d.cache.base.entries.get? id = some h) :
    d.Opens (d.openById id).2 id h := by
  obtain ⟨-, hentries, hworkspace⟩ := openById_of_entry hentry
  have hafter : (d.openById id).2.cache.base.entries.get? id = some h := by
    rw [hentries]
    exact hentry
  have hid := ((Leads.refl.openById id).filing hd).filed hafter
  refine ⟨hid, fun _ => hafter, fun k j hget => Or.inl ?_, fun _ => opened_again hid hafter⟩
  rwa [hentries] at hget

/-- **What is loaded** is opened if its record has the identity it is filed under. -/
theorem Filing.opens_of_absent (hd : d.Filing) (hnew : d.cache.base.entries.get? id = none)
    (opened : (d.openById id).1 = .ok (some h)) :
    ∃ block r, d.store.raw? id = some block ∧ Record.ofBytes block = .ok r ∧
      (d.openById id).2.workspace.label? tag h = some (tag r) ∧
      (r.id = id → d.Opens (d.openById id).2 id h) := by
  obtain ⟨d₁, halike, hopen⟩ := openById_of_absent hnew
  rw [hopen] at opened ⊢
  obtain ⟨block, r, hraw, hread, hok, hafter⟩ := loadStored_ok opened
  have htag := tag?_bringIn (hd.alike halike) hok
  obtain ⟨rfl, htaken, hcache, -⟩ := bringIn_ok hok
  obtain ⟨hcached, hothers⟩ := asked_entries htaken
  rw [← hcache, ← hafter] at hcached hothers
  rw [← hafter] at htag
  have hid := identity?_of_tag? htag
  refine ⟨block, r, ?_, hread, htag, ?_⟩
  · rw [← hraw, store, store, halike.workspace]
  rintro rfl
  have hentry (hserves : d.cache.base.contains r.id = true ∨ d.cache.base.operational = true) :
      (d₁.loadStored r.id).2.cache.base.entries.get? r.id = some d₁.holdings.fresh := by
    refine hcached (halike.operational.trans (hserves.resolve_left ?_))
    rw [Cache.contains, Table.contains_eq, hnew]
    exact Bool.false_ne_true
  refine ⟨hid, hentry, fun k j hget => ?_, fun hserves => opened_again hid (hentry hserves)⟩
  rcases hothers k j hget with ⟨rfl, rfl⟩ | hold
  · exact Or.inr ⟨hnew, rfl, rfl⟩
  · exact Or.inl (halike.entries ▸ hold)

/-- **What is opened under an identity** is the collection with that identity, and displaces no
other one, exactly if it is cached or its own record is filed under the identity. -/
theorem Reached.opens_iff (reached : Reached τ d)
    (opened : (d.openById id).1 = .ok (some h)) :
    d.Opens (d.openById id).2 id h ↔ d.cache.base.contains id = true ∨ d.HasOwn id := by
  have hd := reached.filing
  rw [Cache.contains, Table.contains_eq]
  cases hentry : d.cache.base.entries.get? id with
  | some g =>
    rw [(openById_of_entry hentry).1] at opened
    cases opened
    exact iff_of_true (hd.opens_of_entry hentry) (Or.inl rfl)
  | none =>
    obtain ⟨block, r, hraw, hread, htag, hopens⟩ := hd.opens_of_absent hentry opened
    constructor
    · intro hopened
      have hsame := hopened.identity.symm.trans (identity?_of_tag? htag)
      exact Or.inr ⟨block, r, hraw, hread, (Option.some.inj hsame).symm⟩
    · rintro (hin | ⟨block', r', hraw', hread', hr'⟩)
      · cases hin
      · rw [hraw] at hraw'
        cases hraw'
        rw [hread] at hread'
        cases hread'
        exact hopens hr'

end

/-- A collection that was evicted is opened again under its identity. -/
theorem opens_after_eviction :
    let s : Session Unit := [.create 1 "/db", .release 0, .evict].foldl Session.perform
      { database := Session.narrowDatabase }
    (s.database.openById 1).1 = .ok (some 1) ∧ s.database.cache.base.contains 1 = false ∧
      s.database.Opens (s.database.openById 1).2 1 1 := by
  intro s
  have start : Reached Unit Session.narrowDatabase := .new Session.new_narrow
  have reached : Reached Unit s.database :=
    Reached.each (s := { database := Session.narrowDatabase }) start _
  have opened : (s.database.openById 1).1 = .ok (some 1) := by decide +kernel
  have own : s.database.HasOwn 1 :=
    ⟨Record.encode { id := 1, name := "/db" }, { id := 1, name := "/db" }, by decide +kernel,
      by decide +kernel, rfl⟩
  exact ⟨opened, by decide +kernel, (reached.opens_iff opened).2 (Or.inr own)⟩

/-- **A record that is filed under another identity** is opened under that one.  It takes the place
of the collection whose record it is, and whoever opens it next is given yet another instance. -/
theorem opens_misfiled_record :
    let d := Session.narrowDatabase.setStore
      (Session.narrowDatabase.store.putRaw 7 "/a" (Record.encode { id := 8, name := "/b" }))
    let s : Session Unit := Session.perform { database := d } (.create 8 "/b")
    let after := (s.database.openById 7).2
    Reached Unit s.database ∧ (s.database.openById 7).1 = .ok (some 1) ∧
      after.workspace.identity? 1 = some 8 ∧
      s.database.cache.base.entries.get? 8 = some 0 ∧
      after.cache.base.entries.get? 8 = some 1 ∧ (after.openById 7).1 = .ok (some 2) ∧
      ¬s.database.Opens after 7 1 := by
  intro d s after
  have filed : Reached Unit d := (Reached.new Session.new_narrow).meanwhile rfl (.refl _)
  have reached : Reached Unit s.database :=
    Reached.advance (s := { database := d }) filed (.act (.create 8 "/b"))
  have hid : after.workspace.identity? 1 = some 8 := by decide +kernel
  refine ⟨reached, by decide +kernel, hid, by decide +kernel, by decide +kernel, by decide +kernel,
    fun hopens => ?_⟩
  rw [hopens.identity] at hid
  cases hid

end Database
end Folio
