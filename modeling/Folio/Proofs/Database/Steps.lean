import Folio.Proofs.Database.Holdings

/-! # What the operations of a database do to its holdings

One case lemma for each operation.  They hold of a database whose cache writes back to its
store and is in operation (`Wired`), which every operation keeps.
-/
namespace Folio

open Cache (Handle Instance Operation Pool Workspace)
open Holdings

namespace Holdings

/-- A new instance comes into memory, pinned once. -/
def load (H : Holdings) (c : Collection) : Holdings :=
  { H with pool := (H.pool.add { c with refCount := 1 }).2 }

/-- The handle of the next new instance. -/
def fresh (H : Holdings) : Handle := H.pool.instances.size

theorem get?_load (H : Holdings) (c : Collection) (h : Handle) :
    (H.load c).pool.get? h =
      if h = H.fresh then some { c with refCount := 1 } else H.pool.get? h :=
  Pool.get?_add H.pool _ h

/-- Nothing has the next handle yet. -/
theorem get?_fresh (H : Holdings) : H.pool.get? H.fresh = none :=
  Array.getElem?_eq_none (Nat.le_refl _)

theorem get?_load_fresh (H : Holdings) (c : Collection) :
    (H.load c).pool.get? H.fresh = some { c with refCount := 1 } := by
  rw [get?_load, if_pos rfl]

/-- A new instance leaves those that are in memory alone. -/
theorem get?_load_of_some {H : Holdings} {h : Handle} {b : Collection}
    (hb : H.pool.get? h = some b) (c : Collection) : (H.load c).pool.get? h = some b := by
  have hne : h ≠ H.fresh := by
    rintro rfl
    rw [get?_fresh] at hb
    cases hb
  rw [get?_load, if_neg hne, hb]

/-- **What becomes of a new instance.**  It is cached under a new identity, and others may be shed
for it; there is no room for it; or it takes the place of an instance that may be saved before. -/
inductive Brought (H : Holdings) (c : Collection) : Except Cache.Error Handle → Holdings → Prop
  | cached {H' : Holdings} (new : H.entry c.content.id = none)
      (sheds : Sheds (some c.content.id) ((H.load c).enter c.content.id H.fresh) H') :
      Brought H c (.ok H.fresh) H'
  | rejected (new : H.entry c.content.id = none) (e : Cache.Error) :
      Brought H c (.error e) (H.load c)
  | replaced {previous : Handle} {H' : Holdings} (old : H.entry c.content.id = some previous)
      (saved : H' = H.load c ∨ Saved previous (H.load c) H') :
      Brought H c (.ok H.fresh) (H'.enter c.content.id H.fresh)

/-- A new collection that was not turned away is cached under its identity. -/
theorem Brought.entry_eq {H H' : Holdings} {c : Collection} {h : Handle}
    (hb : Brought H c (.ok h) H') : H'.entry c.content.id = some h := by
  cases hb with
  | cached new sheds => exact sheds.entry_eq.trans (if_pos rfl)
  | replaced old saved => exact if_pos rfl

/-- An instance is changed in memory. -/
def alter (H : Holdings) (h : Handle) (f : Collection → Collection) : Holdings :=
  { H with pool := H.pool.modify h f }

/-- **What opening a collection by its identity comes to.**  The cached instance is pinned, or what
is stored is brought in. -/
inductive Opened (H : Holdings) (id : ObjectId) (timeout : Option Duration) :
    Except Database.Error (Option Handle) → Holdings → Prop
  | cached {h : Handle} (entry : H.entry id = some h) :
      Opened H id timeout (.ok (some h)) (H.alter h Instance.pin)
  | absent (new : H.entry id = none) (missing : H.store.raw? id = none) :
      Opened H id timeout (.ok none) H
  | damaged {block : Bytes} {e : Codec.Error} (new : H.entry id = none)
      (stored : H.store.raw? id = some block) (unreadable : Record.ofBytes block = .error e) :
      Opened H id timeout (.error (.codec e)) H
  | loaded {block : Bytes} {r : Record} {result : Except Cache.Error Handle} {H' : Holdings}
      (new : H.entry id = none) (stored : H.store.raw? id = some block)
      (readable : Record.ofBytes block = .ok r)
      (brought : Brought H (Collection.ofRecord r timeout) result H') :
      Opened H id timeout ((result.map some).mapError .cache) H'

/-- **What flushing an instance comes to**: it is passed over, or written, or marked again because
it could not be written. -/
inductive Flushed (h : Handle) (H : Holdings) : Holdings → Prop
  | passed : Flushed h H H
  | written {c : Collection} {s : Store} (loaded : H.pool.get? h = some c)
      (accepted : H.store.write c = .ok s) :
      Flushed h H { H with pool := H.pool.set h (c.setDirty false), store := s }
  | refused {c : Collection} (loaded : H.pool.get? h = some c) :
      Flushed h H { H with pool := H.pool.set h (c.setDirty true) }

/-- Some instances are flushed in the given order. -/
inductive FlushedEach : List Handle → Holdings → Holdings → Prop
  | nil {H : Holdings} : FlushedEach [] H H
  | cons {h : Handle} {hs : List Handle} {H H₁ H' : Holdings} (first : Flushed h H H₁)
      (others : FlushedEach hs H₁ H') : FlushedEach (h :: hs) H H'

end Holdings

namespace Database

/-- The cache writes back to the store and takes new collections. -/
structure Wired (d : Database) : Prop where
  hook : d.cache.base.flushHook = some Store.flushHook
  operational : d.cache.base.operational = true

def holdings (d : Database) : Holdings := d.cache.base.holdings d.workspace

section
variable {d : Database}

/-- What an operation of the cache leaves wired stays so in the database. -/
theorem Wired.perform (hd : d.Wired) {c : NamedCache Store Record} {w v : Workspace Store Record}
    (op : Operation) (hop : op.operates true = true)
    (hc : c.base = (d.cache.base.perform w op).1) :
    Wired { d with cache := c, workspace := v } := by
  obtain ⟨hhook, hoperational⟩ := Cache.perform_wiring d.cache.base w op
  constructor
  · show c.base.flushHook = _
    rw [hc, hhook, hd.hook]
  · show c.base.operational = _
    rw [hc, hoperational, hd.operational, hop]

theorem Wired.of_cache {d' : Database} (hd : d.Wired) (hcache : d'.cache = d.cache) : d'.Wired :=
  ⟨hcache ▸ hd.hook, hcache ▸ hd.operational⟩

/-- **A new database** holds nothing but its store. -/
theorem new_ok {settings : Settings} {store : Store} {pool : Pool Record}
    (h : Database.new settings store pool = .ok d) :
    d.Wired ∧ d.holdings = { entry := fun _ => none, pool, store } := by
  unfold Database.new at h
  cases hvalid : (settings.validate).mapError Error.settings with
  | error e =>
    rw [hvalid] at h
    cases h
  | ok u =>
    rw [hvalid] at h
    cases hattach : (Cache.setFlushHook (.new cacheName settings.cache) Store.flushHook).attach
        { pool, budget := { total := settings.budget }, outside := store } with
    | error e =>
      simp [NamedCache.attach, NamedCache.setFlushHook, NamedCache.new, hattach, bind,
        Except.bind, Except.mapError] at h
    | ok attached =>
      obtain ⟨c, w⟩ := attached
      obtain ⟨b, rfl, rfl, -⟩ := Cache.attach_eq hattach
      simp only [NamedCache.attach, NamedCache.setFlushHook, NamedCache.new, hattach, bind,
        Except.bind, Except.mapError, pure, Except.pure, Except.ok.injEq] at h
      subst h
      exact ⟨⟨rfl, rfl⟩, rfl⟩

/-! ## Bringing in -/

theorem add_base (c : NamedCache Store Record) (h : Handle) (refCount : UInt32)
    (w : Workspace Store Record) :
    (c.add h refCount w).value = (c.base.add h refCount w).value ∧
      (c.add h refCount w).cache.base = (c.base.add h refCount w).cache ∧
      (c.add h refCount w).workspace = (c.base.add h refCount w).workspace := by
  unfold NamedCache.add
  dsimp only [NamedCache.followUp]
  split <;> exact ⟨rfl, rfl, rfl⟩

/-- **A collection is brought into memory** with one pin, and cached if there is room for it. -/
theorem bringIn_brought (hd : d.Wired) (c : Collection) :
    Brought d.holdings c (d.bringIn c).1 (d.bringIn c).2.holdings ∧ (d.bringIn c).2.Wired := by
  obtain ⟨hvalue, hcache, hworkspace⟩ := add_base d.cache (d.workspace.pool.add c).1 1
    (d.workspace.setPool (d.workspace.pool.add c).2)
  have hi : (d.workspace.setPool (d.workspace.pool.add c).2).pool.get?
      (d.workspace.pool.add c).1 = some c := by
    rw [Workspace.setPool, Pool.get?_add, if_pos rfl]
  have hload : d.cache.base.holdings ((d.workspace.setPool (d.workspace.pool.add c).2).modify
      (d.workspace.pool.add c).1 ({ · with refCount := 1 })) = d.holdings.load c :=
    congrArg (fun pool => Holdings.mk d.cache.base.entries.get? pool d.workspace.outside)
      (Pool.modify_add d.workspace.pool c ({ · with refCount := 1 }))
  obtain ⟨H, rfl, hadd⟩ := Cache.add_holdings hd.hook hd.operational hi 1
  rw [hload] at hadd
  have hwired := hd.perform (v := (d.cache.add (d.workspace.pool.add c).1 1
    (d.workspace.setPool (d.workspace.pool.add c).2)).workspace)
    (.add (d.workspace.pool.add c).1 1) rfl hcache
  have hafter : Database.holdings { d with
      cache := (d.cache.add (d.workspace.pool.add c).1 1
        (d.workspace.setPool (d.workspace.pool.add c).2)).cache
      workspace := (d.cache.add (d.workspace.pool.add c).1 1
        (d.workspace.setPool (d.workspace.pool.add c).2)).workspace } =
      (d.cache.base.add (d.workspace.pool.add c).1 1
        (d.workspace.setPool (d.workspace.pool.add c).2)).cache.holdings
          (d.cache.base.add (d.workspace.pool.add c).1 1
            (d.workspace.setPool (d.workspace.pool.add c).2)).workspace := by
    rw [← hcache, ← hworkspace]
    rfl
  unfold bringIn
  rcases hadd with ⟨hnew, hok, hsheds⟩ | ⟨hnew, ⟨e, herror⟩, hsame⟩ |
    ⟨previous, H', hold, hok, hsaved, henter⟩
  · simp only [hvalue, hok]
    refine ⟨?_, hwired⟩
    rw [hafter]
    exact .cached hnew hsheds
  · simp only [hvalue, herror]
    refine ⟨?_, hwired⟩
    rw [hafter, hsame]
    exact .rejected (H := d.holdings) hnew e
  · simp only [hvalue, hok]
    refine ⟨?_, hwired⟩
    rw [hafter, henter]
    exact .replaced hold hsaved

/-- **Creating** brings a new collection in, dirty and under its lock's timeout. -/
theorem create_brought (hd : d.Wired) (id : ObjectId) (name : String) :
    ∃ result, (d.create id name).1 = result.mapError .cache ∧
      Brought d.holdings
        ((Collection.ofRecord { id, name } d.settings.lockTimeout).setDirty true) result
        (d.create id name).2.holdings ∧
      (d.create id name).2.Wired := by
  obtain ⟨hbrought, hwired⟩ := bringIn_brought hd
    ((Collection.ofRecord { id, name } d.settings.lockTimeout).setDirty true)
  exact ⟨_, rfl, hbrought, hwired⟩

/-! ## Opening -/

theorem get_base (c : NamedCache Store Record) (id : ObjectId) :
    (c.get id).1 = c.base.entries.get? id ∧ (c.get id).2.base = (c.base.get id).2 := by
  unfold NamedCache.get Cache.get
  cases c.base.entries.get? id with
  | none => exact ⟨rfl, rfl⟩
  | some h => exact ⟨rfl, rfl⟩

/-- Looking a collection up changes what is cached in nothing. -/
theorem holdings_get (c : NamedCache Store Record) (id : ObjectId)
    (w : Workspace Store Record) : (c.get id).2.base.holdings w = c.base.holdings w := by
  rw [(get_base c id).2]
  unfold Cache.get
  cases c.base.entries.get? id with
  | none => rfl
  | some h => rfl

/-- Checking out pins what is cached. -/
theorem checkout_cases (hd : d.Wired) (id : ObjectId) :
    (d.checkout id).2.Wired ∧
      ((∃ h, d.holdings.entry id = some h ∧ (d.checkout id).1 = some h ∧
          (d.checkout id).2.holdings = d.holdings.alter h Instance.pin) ∨
        (d.holdings.entry id = none ∧ (d.checkout id).1 = none ∧
          (d.checkout id).2.holdings = d.holdings ∧
          (d.checkout id).2.settings = d.settings)) := by
  obtain ⟨hfound, hbase⟩ := get_base d.cache id
  have hafter (w : Workspace Store Record) :
      Database.holdings { d with cache := (d.cache.get id).2, workspace := w } =
        d.cache.base.holdings w := holdings_get d.cache id w
  have hout : d.checkout id = ((d.cache.get id).1, { d with
      cache := (d.cache.get id).2
      workspace := (d.cache.get id).1.elim d.workspace (d.workspace.modify · Instance.pin) }) := rfl
  rw [hout, hfound]
  refine ⟨hd.perform (w := d.workspace) (.get id) rfl hbase, ?_⟩
  cases hget : d.cache.base.entries.get? id with
  | none => exact Or.inr ⟨hget, rfl, hafter _, rfl⟩
  | some h => exact Or.inl ⟨h, hget, rfl, hafter _⟩

theorem loadStored_opened (hd : d.Wired) {id : ObjectId} (hnew : d.holdings.entry id = none) :
    Opened d.holdings id d.settings.lockTimeout (d.loadStored id).1 (d.loadStored id).2.holdings ∧
      (d.loadStored id).2.Wired := by
  unfold loadStored Store.load
  cases hraw : d.store.raw? id with
  | none => exact ⟨.absent hnew hraw, hd⟩
  | some block =>
    cases hread : Record.ofBytes block with
    | error e =>
      have hload : Collection.ofBytes block d.settings.lockTimeout = .error e := by
        rw [Collection.ofBytes, hread]
        rfl
      simp only [hload]
      exact ⟨.damaged hnew hraw hread, hd⟩
    | ok r =>
      have hload : Collection.ofBytes block d.settings.lockTimeout =
          .ok (Collection.ofRecord r d.settings.lockTimeout) := by
        rw [Collection.ofBytes, hread]
        rfl
      simp only [hload]
      obtain ⟨hbrought, hwired⟩ := bringIn_brought hd (Collection.ofRecord r d.settings.lockTimeout)
      exact ⟨.loaded hnew hraw hread hbrought, hwired⟩

/-- The second look of an opening, and loading if it finds nothing. -/
def fetch (d : Database) (id : ObjectId) : Except Error (Option Handle) × Database :=
  match d.checkout id with
  | (some h, d) => (.ok (some h), d)
  | (none, d) => d.loadStored id

theorem fetch_opened (hd : d.Wired) (id : ObjectId) :
    Opened d.holdings id d.settings.lockTimeout (d.fetch id).1 (d.fetch id).2.holdings ∧
      (d.fetch id).2.Wired := by
  unfold fetch
  rcases hlook : d.checkout id with ⟨found, d₁⟩
  obtain ⟨hwired, hcases⟩ := checkout_cases hd id
  rw [hlook] at hwired hcases
  rcases hcases with ⟨h, hentry, rfl, hpinned⟩ | ⟨hnew, rfl, hsame, hsettings⟩
  · refine ⟨?_, hwired⟩
    show Opened _ _ _ (.ok (some h)) d₁.holdings
    rw [hpinned]
    exact .cached hentry
  · have hload := loadStored_opened hwired (hsame ▸ hnew)
    rw [hsame, hsettings] at hload
    exact hload

/-- Opening is a first look and, if it finds nothing, fetching. -/
theorem openById_eq (d : Database) (id : ObjectId) :
    d.openById id =
      match d.checkout id with
      | (some h, d) => (.ok (some h), d)
      | (none, d) => d.fetch id := rfl

/-- **Opening by identity.** -/
theorem openById_opened (hd : d.Wired) (id : ObjectId) :
    Opened d.holdings id d.settings.lockTimeout (d.openById id).1 (d.openById id).2.holdings ∧
      (d.openById id).2.Wired := by
  rw [openById_eq]
  rcases hfirst : d.checkout id with ⟨found, d₁⟩
  obtain ⟨hwired, hcases⟩ := checkout_cases hd id
  rw [hfirst] at hwired hcases
  rcases hcases with ⟨h, hentry, rfl, hpinned⟩ | ⟨-, rfl, hsame, hsettings⟩
  · refine ⟨?_, hwired⟩
    show Opened _ _ _ (.ok (some h)) d₁.holdings
    rw [hpinned]
    exact .cached hentry
  -- the first look has changed nothing, so fetching starts where opening did
  · have hfetch := fetch_opened hwired id
    rw [hsame, hsettings] at hfetch
    exact hfetch

/-- Looks a collection up under the identity that the cache has for a name, and pins it. -/
def checkoutByName (d : Database) (name : String) : Option Handle × Database :=
  match d.cache.lookupName name with
  | some id => d.checkout id
  | none => (none, d)

theorem openByName_eq (d : Database) (name : String) :
    d.openByName name =
      match (d.checkoutByName name).1, (d.checkoutByName name).2.store.findByName? name with
      | some h, _ => (.ok (some h), (d.checkoutByName name).2)
      | none, some id => (d.checkoutByName name).2.openById id
      | none, none => (.ok none, (d.checkoutByName name).2) := by
  have hlook : d.checkoutByName name =
      ((d.cache.checkoutByName name d.workspace).value, { d with
        cache := (d.cache.checkoutByName name d.workspace).cache
        workspace := (d.cache.checkoutByName name d.workspace).workspace }) := by
    unfold checkoutByName NamedCache.checkoutByName NamedCache.getByName
    cases d.cache.lookupName name with
    | none => rfl
    | some id => rfl
  rw [hlook]
  rfl

theorem checkoutByName_cases (hd : d.Wired) (name : String) :
    (d.checkoutByName name).2.Wired ∧
      ((∃ id h, d.holdings.entry id = some h ∧ (d.checkoutByName name).1 = some h ∧
          (d.checkoutByName name).2.holdings = d.holdings.alter h Instance.pin) ∨
        ((d.checkoutByName name).1 = none ∧ (d.checkoutByName name).2.holdings = d.holdings ∧
          (d.checkoutByName name).2.settings = d.settings)) := by
  unfold checkoutByName
  cases d.cache.lookupName name with
  | none => exact ⟨hd, Or.inr ⟨rfl, rfl, rfl⟩⟩
  | some id =>
    obtain ⟨hwired, ⟨h, hcached⟩ | ⟨-, hnone⟩⟩ := checkout_cases hd id
    · exact ⟨hwired, Or.inl ⟨id, h, hcached⟩⟩
    · exact ⟨hwired, Or.inr hnone⟩

/-- **Opening by name** is opening by some identity, or nothing at all. -/
theorem openByName_opened (hd : d.Wired) (name : String) :
    ((∃ id, Opened d.holdings id d.settings.lockTimeout (d.openByName name).1
        (d.openByName name).2.holdings) ∨
      ((d.openByName name).1 = .ok none ∧ (d.openByName name).2.holdings = d.holdings)) ∧
      (d.openByName name).2.Wired := by
  rw [openByName_eq]
  rcases hlook : d.checkoutByName name with ⟨found, d₁⟩
  obtain ⟨hwired, hcases⟩ := checkoutByName_cases hd name
  rw [hlook] at hwired hcases
  rcases hcases with ⟨id, h, hentry, rfl, hpinned⟩ | ⟨rfl, hsame, hsettings⟩
  · refine ⟨Or.inl ⟨id, ?_⟩, hwired⟩
    show Opened _ _ _ (.ok (some h)) d₁.holdings
    rw [hpinned]
    exact .cached hentry
  · dsimp only
    cases d₁.store.findByName? name with
    | none => exact ⟨Or.inr ⟨rfl, hsame⟩, hwired⟩
    | some id =>
      have hopen := openById_opened hwired id
      rw [hsame, hsettings] at hopen
      exact ⟨Or.inl ⟨id, hopen.1⟩, hopen.2⟩

/-! ## Making room -/

/-- One eviction pass over the collections. -/
def evict (d : Database) : Database :=
  let r := d.cache.evict d.workspace
  { d with cache := r.cache, workspace := r.workspace }

/-- A new capacity for the collections. -/
def resize (d : Database) (capacity : Nat) : Database :=
  let r := d.cache.resize capacity d.workspace
  { d with cache := r.cache, workspace := r.workspace }

theorem evict_sheds (hd : d.Wired) : Sheds none d.holdings d.evict.holdings ∧ d.evict.Wired :=
  ⟨Cache.evict_sheds hd.hook d.workspace, hd.perform (w := d.workspace) .evict rfl rfl⟩

theorem resize_sheds (hd : d.Wired) (capacity : Nat) :
    Sheds none d.holdings (d.resize capacity).holdings ∧ (d.resize capacity).Wired :=
  ⟨Cache.resize_sheds hd.hook capacity d.workspace,
    hd.perform (w := d.workspace) (.resize capacity) rfl rfl⟩

/-! ## Writing back -/

/-- An instance that is flushed is written and clean, or it could not be written and is marked, or
nothing happens since it is not there or its lock is taken. -/
theorem flushOne_cases (d : Database) (h : Handle) :
    (d.flushOne h).2.cache = d.cache ∧
      ((d.flushOne h).1 = false ∧ (d.flushOne h).2.holdings = d.holdings ∨
        ∃ c, d.holdings.pool.get? h = some c ∧
          ((d.flushOne h).1 = false ∧ (d.flushOne h).2.holdings =
              { d.holdings with pool := d.holdings.pool.set h (c.setDirty true) } ∨
            ∃ s, d.holdings.store.write c = .ok s ∧ (d.flushOne h).1 = true ∧
              (d.flushOne h).2.holdings =
                { d.holdings with
                  pool := d.holdings.pool.set h (c.setDirty false), store := s })) := by
  cases hi : d.collection? h with
  | none =>
    have hout : d.flushOne h = (false, d) := by simp only [flushOne, hi]
    rw [hout]
    exact ⟨rfl, Or.inl ⟨rfl, rfl⟩⟩
  | some c =>
    have hloaded : d.holdings.pool.get? h = some c := hi
    by_cases hfree : c.lock.admits .read = true
    · have hacq : c.lock.tryAcquire .read = some (c.lock.grant .read) := if_pos hfree
      have hsame : d.store.write ((c.setLock (c.lock.grant .read)).setDirty false) =
          d.store.write c := d.store.write_congr rfl
      unfold flushOne
      simp only [hi, hacq, hsame]
      cases hwrite : d.store.write c with
      | ok s => exact ⟨rfl, Or.inr ⟨c, hloaded, Or.inr ⟨s, hwrite, rfl, rfl⟩⟩⟩
      | error e => exact ⟨rfl, Or.inr ⟨c, hloaded, Or.inl ⟨rfl, rfl⟩⟩⟩
    · have hacq : c.lock.tryAcquire .read = none := if_neg hfree
      have hout : d.flushOne h = (false, d) := by simp only [flushOne, hi, hacq]
      rw [hout]
      exact ⟨rfl, Or.inl ⟨rfl, rfl⟩⟩

theorem flushOne_flushed (d : Database) (h : Handle) :
    Flushed h d.holdings (d.flushOne h).2.holdings ∧ (d.flushOne h).2.cache = d.cache := by
  obtain ⟨hcache, hcases⟩ := d.flushOne_cases h
  refine ⟨?_, hcache⟩
  rcases hcases with ⟨-, hsame⟩ | ⟨c, hloaded, ⟨-, hrefused⟩ | ⟨s, hwrite, -, hwritten⟩⟩
  · rw [hsame]
    exact .passed
  · rw [hrefused]
    exact .refused hloaded
  · rw [hwritten]
    exact .written hloaded hwrite

theorem flushEach_flushed (d : Database) (hs : List Handle) :
    FlushedEach hs d.holdings (d.flushEach hs).2.holdings ∧ (d.flushEach hs).2.cache = d.cache := by
  induction hs generalizing d with
  | nil => exact ⟨.nil, rfl⟩
  | cons h hs ih =>
    obtain ⟨hfirst, hcache⟩ := flushOne_flushed d h
    obtain ⟨hothers, hcache'⟩ := ih (d.flushOne h).2
    exact ⟨.cons hfirst hothers, hcache'.trans hcache⟩

/-- **Writing back** flushes instances that are cached. -/
theorem flushDirty_flushed (d : Database) :
    ∃ hs, (∀ h ∈ hs, ∃ id, d.holdings.entry id = some h) ∧
      FlushedEach hs d.holdings d.flushDirty.2.holdings ∧ d.flushDirty.2.cache = d.cache := by
  refine ⟨d.dirtyHandles, fun h hh => ?_, flushEach_flushed d d.dirtyHandles⟩
  obtain ⟨hcached, -⟩ := List.mem_filter.1 hh
  obtain ⟨id, -, hentry⟩ := List.mem_filterMap.1 hcached
  exact ⟨id, hentry⟩

end
end Database
end Folio
