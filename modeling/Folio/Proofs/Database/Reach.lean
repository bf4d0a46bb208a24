import Folio.Proofs.Cache.Naming
import Folio.Proofs.Database.Handles

/-! # States of a database

`Reached` is every state that a database can be in, whatever was filed in its store.  Whatever a
database does, it leads from one to another by operations on the cache with names and by changes
beside it that leave names and identities alone: `Leads` says so once, and what both of these keep
holds in every state.  So the cache writes back to the store, every collection is cached under its
own identity, and every name in the index is borne by the collection it stands for
(`Reached.filing`); and the order of use has every cached identity once (`Reached.tidy`).
-/
namespace Folio

open Cache (Handle Instance Pool Workspace)
open NamedCache (tag)
open Holdings

/-- A change leaves the name and the identity of a collection alone. -/
theorem Mutation.tag_apply (m : Mutation) (c : Collection) :
    tag (m.apply c).content = tag c.content := by
  rcases m.apply_cases c with hsame | ⟨r, hchange, hid, hname⟩
  · rw [hsame]
  · rw [hchange]
    exact Prod.ext hname hid

namespace Database

/-- **The states of a database.**  Clients do what they like, stage by stage, with the database or
with its cache; meanwhile anything may be filed in the store, under any identity, and instances may
change in all but their names and identities; and the database may be shut down. -/
inductive Reached (τ : Type) : Database → Prop
  | new {settings : Settings} {store : Store} {pool : Pool Record} {d : Database}
      (fresh : Database.new settings store pool = .ok d) : Reached τ d
  | advance {s : Session τ} (before : Reached τ s.database) (e : Event) :
      Reached τ (s.advance e).database
  | use {d : Database} (before : Reached τ d) (op : NamedCache.Operation) :
      Reached τ { d with
        cache := (d.cache.perform d.workspace op).1
        workspace := (d.cache.perform d.workspace op).2 }
  | meanwhile {d d' : Database} (before : Reached τ d) (cache : d'.cache = d.cache)
      (kept : d.workspace.Retains tag d'.workspace) : Reached τ d'
  | shutdown {d : Database} (before : Reached τ d) : Reached τ d.shutdown.2

/-- The cache writes back to the store, and its entries and its index are in order. -/
structure Filing (d : Database) : Prop where
  hook : d.cache.base.flushHook = some Store.flushHook
  indexed : NamedCache.Indexed False none d.cache.names d.cache.base d.workspace

section
variable {d d' : Database} {id : ObjectId} {h : Handle} {n : String}

/-! ## What is in order -/

/-- Every collection is cached under its identity. -/
theorem Filing.filed (hd : d.Filing) (hentry : d.cache.base.entries.get? id = some h) :
    d.workspace.identity? h = some id := by
  obtain ⟨n, htag⟩ := hd.indexed.tagged id h hentry
  obtain ⟨c, hc, heq⟩ := Option.map_eq_some_iff.1 htag
  exact Option.map_eq_some_iff.2 ⟨c, hc, (Prod.mk.inj heq).2⟩

theorem Filing.holdings_filed (hd : d.Filing) : d.holdings.Filed := by
  intro id h hentry
  obtain ⟨c, hc, hid⟩ := Option.map_eq_some_iff.1 (hd.filed hentry)
  exact ⟨c, hc, hid⟩

/-- Every name in the index is borne by the collection that is cached under its identity. -/
theorem Filing.borne (hd : d.Filing) (hname : d.cache.lookupName n = some id) :
    ∃ h c, d.cache.base.entries.get? id = some h ∧ d.collection? h = some c ∧
      c.content.name = n := by
  obtain ⟨h, hentry, htag⟩ := hd.indexed.backed n id hname
  obtain ⟨c, hc, heq⟩ := Option.map_eq_some_iff.1 htag
  exact ⟨h, c, hentry, hc, (Prod.mk.inj heq).1⟩

/-! ## What a database does -/

/-- **What a database does comes down to operations on its cache**, and to changes beside it that
leave names and identities alone. -/
inductive Leads (d : Database) : Database → Prop
  | refl : Leads d d
  | use {d' : Database} (before : Leads d d') (op : NamedCache.Operation) :
      Leads d { d' with
        cache := (d'.cache.perform d'.workspace op).1
        workspace := (d'.cache.perform d'.workspace op).2 }
  | meanwhile {d' d'' : Database} (before : Leads d d') (cache : d''.cache = d'.cache)
      (kept : d'.workspace.Retains tag d''.workspace) : Leads d d''

/-- **Every operation on the cache leaves it in order.** -/
theorem Leads.filing (hl : d.Leads d') (hd : d.Filing) : d'.Filing := by
  induction hl with
  | refl => exact hd
  | @use d' _ op ih =>
    exact ⟨(d'.cache.flushHook_perform d'.workspace op).trans ih.hook,
      ih.indexed.perform (ih.hook ▸ NamedCache.lasting_tag_record) nofun⟩
  | meanwhile _ hcache hkept ih =>
    refine ⟨hcache ▸ ih.hook, ?_⟩
    rw [hcache]
    exact ih.indexed.rest rfl (NamedCache.stable_of_retains hkept)

theorem Leads.tidy (hl : d.Leads d') (hd : d.cache.base.Tidy) : d'.cache.base.Tidy := by
  induction hl with
  | refl => exact hd
  | @use d' _ op ih =>
    show Cache.Tidy (d'.cache.perform d'.workspace op).1.base
    rw [(d'.cache.perform_base d'.workspace op).1]
    cases op.base? d'.cache with
    | none => exact ih
    | some o => exact (ih.perform d'.workspace o).1
  | meanwhile _ hcache _ ih => exact hcache ▸ ih

section
variable {d₀ : Database}

/-! ## Beside the cache -/

theorem Leads.modify (hd : d₀.Leads d) (h : Handle) {f : Collection → Collection}
    (hf : ∀ c, tag (f c).content = tag c.content) : d₀.Leads (d.modify h f) :=
  hd.meanwhile rfl (Workspace.retains_of_pool rfl fun c _ => hf c)

theorem retains_of_remarked (hr : Remarked d.holdings d'.holdings) :
    d.workspace.Retains tag d'.workspace := by
  intro h t ht
  obtain ⟨c, hc, rfl⟩ := Option.map_eq_some_iff.1 ht
  obtain ⟨dirty, hc'⟩ := hr.get? hc
  exact Option.map_eq_some_iff.2 ⟨_, hc', rfl⟩

theorem retains_of_relocked (hr : Relocked d.holdings d'.holdings) :
    d.workspace.Retains tag d'.workspace := by
  intro h t ht
  obtain ⟨c, hc, rfl⟩ := Option.map_eq_some_iff.1 ht
  obtain ⟨lock, hc'⟩ := hr.get? hc
  exact Option.map_eq_some_iff.2 ⟨_, hc', rfl⟩

/-- An instance that comes into memory changes none that is there. -/
theorem retains_load (d : Database) (c : Collection) :
    d.workspace.Retains tag (d.workspace.setPool (d.workspace.pool.add c).2) := by
  intro h t ht
  obtain ⟨b, hb, rfl⟩ := Option.map_eq_some_iff.1 ht
  have hb' : d.holdings.pool.get? h = some b := hb
  have hne : h ≠ d.holdings.fresh := by
    rintro rfl
    rw [get?_fresh] at hb'
    cases hb'
  refine Option.map_eq_some_iff.2 ⟨b, ?_, rfl⟩
  rw [Workspace.setPool, Pool.get?_add]
  exact (if_neg hne).trans hb

theorem Leads.flushEach (hd : d₀.Leads d) (hs : List Handle) : d₀.Leads (d.flushEach hs).2 := by
  obtain ⟨hflushed, hcache⟩ := d.flushEach_flushed hs
  exact hd.meanwhile hcache (retains_of_remarked hflushed.remarked)

/-! ## On the cache -/

theorem Leads.checkout (hd : d₀.Leads d) (id : ObjectId) : d₀.Leads (d.checkout id).2 :=
  hd.use (.checkout id)

theorem Leads.checkoutByName (hd : d₀.Leads d) (name : String) :
    d₀.Leads (d.checkoutByName name).2 := by
  unfold Database.checkoutByName
  split
  · exact hd.checkout _
  · exact hd

/-- A new instance is in memory and not cached yet. -/
def loading (d : Database) (c : Collection) : Database :=
  { d with workspace := d.workspace.setPool (d.workspace.pool.add c).2 }

/-- The cache is asked to take a new instance. -/
def asked (d : Database) (c : Collection) :
    NamedCache.Result Store Record (Except Cache.Error Cache.Added) :=
  d.cache.add d.holdings.fresh 1 (d.loading c).workspace

theorem Leads.asked (hd : d₀.Leads d) (c : Collection) :
    d₀.Leads { d with cache := (d.asked c).cache, workspace := (d.asked c).workspace } := by
  have hload : d₀.Leads (d.loading c) := hd.meanwhile rfl (d.retains_load c)
  exact hload.use (.add d.holdings.fresh 1)

theorem Leads.bringIn (hd : d₀.Leads d) (c : Collection) : d₀.Leads (d.bringIn c).2 := by
  have hasked := hd.asked c
  unfold Database.bringIn
  dsimp only
  split
  · exact hasked
  · exact hasked.modify _ fun _ => rfl
  · exact hasked

theorem Leads.loadStored (hd : d₀.Leads d) (id : ObjectId) : d₀.Leads (d.loadStored id).2 := by
  unfold Database.loadStored
  split
  · exact hd
  · exact hd
  · exact hd.bringIn _

theorem Leads.fetch (hd : d₀.Leads d) (id : ObjectId) : d₀.Leads (d.fetch id).2 := by
  have hlook := hd.checkout id
  unfold Database.fetch
  split
  · rename_i heq
    rwa [heq] at hlook
  · rename_i heq
    rw [heq] at hlook
    exact hlook.loadStored id

theorem Leads.openById (hd : d₀.Leads d) (id : ObjectId) : d₀.Leads (d.openById id).2 := by
  have hlook := hd.checkout id
  rw [openById_eq]
  split
  · rename_i heq
    rwa [heq] at hlook
  · rename_i heq
    rw [heq] at hlook
    exact hlook.fetch id

theorem Leads.openByName (hd : d₀.Leads d) (name : String) : d₀.Leads (d.openByName name).2 := by
  have hlook := hd.checkoutByName name
  rw [openByName_eq]
  split
  · exact hlook
  · exact hlook.openById _
  · exact hlook

end
end

/-! ## Every state is in order -/

section
variable {τ : Type} {d : Database} {s : Session τ}

theorem Leads.onLocks (hd : d.Leads s.database) {a : Action} (ha : a.OnLocks) :
    d.Leads (s.perform a).database := by
  obtain ⟨hrelocked, hcache⟩ := s.relocked_perform ha
  exact hd.meanwhile hcache (retains_of_relocked hrelocked)

theorem Leads.act (hd : d.Leads s.database) (a : Action) : d.Leads (s.perform a).database := by
  cases a with
  | create id name => exact hd.bringIn _
  | openById id => exact hd.openById id
  | openByName name => exact hd.openByName name
  | release h => exact hd.modify h fun c => congrArg tag c.unpin_content
  | mutate h m => exact hd.modify h m.tag_apply
  | begin => exact hd.onLocks (a := .begin) trivial
  | lock n h mode => exact hd.onLocks (a := .lock n h mode) trivial
  | finish n how => exact hd.onLocks (a := .finish n how) trivial
  | waiting h writers => exact hd.onLocks (a := .waiting h writers) trivial
  | flushDirty => exact hd.flushEach _
  | evict => exact hd.use .evict
  | resize capacity => exact hd.use (.resize capacity)
  | setReadOnly readOnly => exact hd.meanwhile rfl (.refl _)

theorem Leads.advance (hd : d.Leads s.database) (e : Event) :
    d.Leads (s.advance e).database := by
  cases e with
  | act a => exact hd.act a
  | look id => exact hd.checkout id
  | lookByName name => exact hd.checkoutByName name
  | fetch id => exact hd.fetch id
  | flush h =>
    obtain ⟨hflushed, hcache⟩ := s.database.flushOne_flushed h
    exact hd.meanwhile hcache (retains_of_remarked hflushed.remarked)

theorem Leads.shutdown (d : Database) : d.Leads d.shutdown.2 := by
  have hregistry : d.Leads { d with registry := d.registry.shutdown.2 } :=
    Leads.refl.meanwhile rfl (.refl _)
  exact (hregistry.flushEach _).use (.setOperational false)

/-- The cache of a new database is new and attached. -/
theorem cache_new {settings : Settings} {store : Store} {pool : Pool Record}
    (fresh : Database.new settings store pool = .ok d) :
    d.cache.names = ∅ ∧ d.cache.base.Tidy := by
  unfold Database.new at fresh
  cases hvalid : (settings.validate).mapError Error.settings with
  | error e =>
    rw [hvalid] at fresh
    cases fresh
  | ok u =>
    rw [hvalid] at fresh
    cases hattach : ((NamedCache.new cacheName settings.cache).setFlushHook
        Store.flushHook).attach
          { pool, budget := { total := settings.budget }, outside := store } with
    | error e => simp [hattach, bind, Except.bind, Except.mapError] at fresh
    | ok attached =>
      obtain ⟨c, w⟩ := attached
      obtain ⟨b, rfl, rfl⟩ := NamedCache.attach_eq hattach
      simp only [hattach, bind, Except.bind, Except.mapError, pure, Except.pure,
        Except.ok.injEq] at fresh
      subst fresh
      have hnew := Cache.tidy_newHooked cacheName settings.cache (some Store.flushHook)
      exact ⟨rfl, hnew.toSound.congr rfl rfl, hnew.size_le⟩

/-- **In every state the cache is in order.** -/
theorem Reached.filing (reached : Reached τ d) : d.Filing := by
  induction reached with
  | @new settings store pool d fresh =>
    obtain ⟨hd, hholdings⟩ := new_ok fresh
    have hnone (k : ObjectId) : d.cache.base.entries.get? k = none :=
      congrFun (congrArg Holdings.entry hholdings) k
    refine ⟨hd.hook, fun k h hentry => ?_, fun n k hname => ?_, nofun⟩
    · rw [hnone] at hentry
      cases hentry
    · rw [(cache_new fresh).1] at hname
      cases hname
  | advance before e ih => exact (Leads.refl.advance e).filing ih
  | use before op ih => exact (Leads.refl.use op).filing ih
  | meanwhile before cache kept ih => exact (Leads.refl.meanwhile cache kept).filing ih
  | shutdown before ih => exact (Leads.shutdown _).filing ih

/-- **In every state the order of use has every cached identity once.** -/
theorem Reached.tidy (reached : Reached τ d) : d.cache.base.Tidy := by
  induction reached with
  | new fresh => exact (cache_new fresh).2
  | advance before e ih => exact (Leads.refl.advance e).tidy ih
  | use before op ih => exact (Leads.refl.use op).tidy ih
  | meanwhile before cache kept ih => exact (Leads.refl.meanwhile cache kept).tidy ih
  | shutdown before ih => exact (Leads.shutdown _).tidy ih

/-- Clients do one thing after another. -/
theorem Reached.each (reached : Reached τ s.database) (actions : List Action) :
    Reached τ (actions.foldl Session.perform s).database := by
  induction actions generalizing s with
  | nil => exact reached
  | cons a actions ih => exact ih (reached.advance (.act a))

end
end Database
end Folio
