import Mathlib.Logic.Function.Basic
import Folio.Proofs.Database.Session

/-! # No update is lost

Beside a session runs the record that each identity should have: the one last created or
changed, and failing that the one that was stored at first.  `Knows` says where a database
has the record of an identity: in its cache, and in its store as well if the instance is
clean, or in its store alone.  What takes a record from one of these places to another is a
write of the whole record under its own identity, and a record that was written is read
back as it was.  **`Tracked.nothing_lost`** puts this together for every session.
-/
namespace Folio

open Cache (Handle Instance Pool)
open Holdings

/-! ## One identity -/

/-- **A database has the record that an identity should have.** -/
inductive Holdings.Knows (H : Holdings) (id : ObjectId) : Option Record → Prop
  /-- It is cached, and stored as well unless it is dirty. -/
  | cached {h : Handle} {c : Collection} (entry : H.entry id = some h)
      (loaded : H.pool.get? h = some c) (identity : c.content.id = id) (fits : c.content.Fits)
      (saved : c.dirty = false → H.store.Has id c.content) : Knows H id (some c.content)
  /-- It is stored. -/
  | stored {r : Record} (new : H.entry id = none) (identity : r.id = id)
      (saved : H.store.Has id r) : Knows H id (some r)
  /-- There is none. -/
  | unknown (new : H.entry id = none) (missing : H.store.raw? id = none) : Knows H id none

/-- A database has every record as it should be. -/
def Holdings.Faithful (content : ObjectId → Option Record) (H : Holdings) : Prop :=
  ∀ id, Knows H id (content id)

section
variable {H H' : Holdings} {content : ObjectId → Option Record} {id : ObjectId} {h : Handle}
  {c : Collection} {record : Option Record}

/-- What is cached under an identity, and clean only if it was, is known as before. -/
theorem Holdings.Knows.congr (hk : Knows H id record) (hentry : H'.entry id = H.entry id)
    (hraw : H'.store.raw? id = H.store.raw? id)
    (hpool : ∀ h c, H.entry id = some h → H.pool.get? h = some c →
      ∃ c', H'.pool.get? h = some c' ∧ c'.content = c.content ∧
        (c'.dirty = false → c.dirty = false)) : Knows H' id record := by
  cases hk with
  | @cached h c entry loaded identity fits saved =>
    obtain ⟨c', hc', hcontent, hdirty⟩ := hpool h c entry loaded
    rw [← hcontent] at identity fits saved ⊢
    exact .cached (hentry.trans entry) hc' identity fits fun hclean =>
      Store.has_congr hraw (saved (hdirty hclean))
  | stored new identity saved =>
    exact .stored (hentry.trans new) identity (Store.has_congr hraw saved)
  | unknown new missing => exact .unknown (hentry.trans new) (hraw.trans missing)

/-- What is cached is loaded under its own identity. -/
theorem Holdings.Knows.loaded (hk : Knows H id record) (hentry : H.entry id = some h) :
    ∃ c, H.pool.get? h = some c ∧ c.content.id = id ∧ c.content.Fits ∧ record = some c.content ∧
      (c.dirty = false → H.store.Has id c.content) := by
  cases hk with
  | @cached h' c entry loaded identity fits saved =>
    obtain rfl : h' = h := Option.some.inj (entry.symm.trans hentry)
    exact ⟨c, loaded, identity, fits, rfl, saved⟩
  | stored new => rw [new] at hentry; cases hentry
  | unknown new => rw [new] at hentry; cases hentry

/-- What is not cached is stored. -/
theorem Holdings.Knows.has {r : Record} (hk : Knows H id (some r)) (hnew : H.entry id = none) :
    r.id = id ∧ H.store.Has id r := by
  cases hk with
  | cached entry => rw [hnew] at entry; cases entry
  | stored new identity saved => exact ⟨identity, saved⟩

/-- Different identities have different instances, since an instance has one identity. -/
theorem Holdings.Faithful.handle_ne (hF : Faithful content H) (hentry : H.entry id = some h)
    {k : ObjectId} {j : Handle} (hother : H.entry k = some j) (hk : k ≠ id) : h ≠ j := by
  rintro rfl
  obtain ⟨c, hc, hid, -⟩ := (hF id).loaded hentry
  obtain ⟨c', hc', hkid, -⟩ := (hF k).loaded hother
  obtain rfl : c = c' := Option.some.inj (hc.symm.trans hc')
  exact hk (hkid.symm.trans hid)

/-! ## Writing and leaving -/

/-- **A cached collection is written** and what the database knows stays the same. -/
theorem Holdings.Faithful.write (hF : Faithful content H) {s : Store}
    (hentry : H.entry id = some h) (hloaded : H.pool.get? h = some c)
    (hwrite : H.store.write c = .ok s) :
    Faithful content { H with pool := H.pool.set h (c.setDirty false), store := s } := by
  obtain ⟨c₀, hc₀, hid, hfits, hcontent, -⟩ := (hF id).loaded hentry
  obtain rfl : c₀ = c := Option.some.inj (hc₀.symm.trans hloaded)
  intro k
  by_cases hk : k = id
  · subst hk
    rw [hcontent]
    have hset : (H.pool.set h (c₀.setDirty false)).get? h = some (c₀.setDirty false) := by
      rw [Pool.get?_set, if_pos rfl, hloaded]
      rfl
    refine .cached (c := c₀.setDirty false) hentry hset hid hfits fun _ => ?_
    have hhas := Store.has_of_write hwrite hfits
    rwa [hid] at hhas
  -- other identities have other instances and other places in the store
  · refine (hF k).congr rfl (Store.raw?_write hwrite (by rw [hid]; exact hk)) ?_
    intro j b hj hb
    refine ⟨b, ?_, rfl, fun hclean => hclean⟩
    rw [Pool.get?_set, if_neg (hF.handle_ne hentry hj hk)]
    exact hb

theorem Holdings.Faithful.saved (hF : Faithful content H) (hentry : H.entry id = some h)
    (hs : Saved h H H') :
    Faithful content H' ∧ H'.entry = H.entry ∧
      ∃ c, H'.pool.get? h = some c ∧ c.dirty = false := by
  cases hs with
  | clean loaded unchanged => exact ⟨hF, rfl, _, loaded, unchanged⟩
  | @written c s loaded accepted =>
    refine ⟨hF.write hentry loaded accepted, rfl, c.setDirty false, ?_, rfl⟩
    rw [Pool.get?_set, if_pos rfl, loaded]
    rfl

/-- **A clean collection leaves the cache**; it is stored. -/
theorem Holdings.Faithful.leave (hF : Faithful content H) (hentry : H.entry id = some h)
    (hloaded : H.pool.get? h = some c) (hclean : c.dirty = false) :
    Faithful content (H.leave id) := by
  intro k
  by_cases hk : k = id
  · subst hk
    obtain ⟨c₀, hc₀, hid, -, hcontent, hsaved⟩ := (hF k).loaded hentry
    obtain rfl : c₀ = c := Option.some.inj (hc₀.symm.trans hloaded)
    rw [hcontent]
    exact .stored (if_pos rfl) hid (hsaved hclean)
  · exact (hF k).congr (if_neg hk) rfl fun j b _ hb => ⟨b, hb, rfl, fun hclean => hclean⟩

theorem Holdings.Faithful.unload {exclude : Option ObjectId} (hF : Faithful content H)
    (hu : Unload exclude H H') : Faithful content H' := by
  obtain ⟨-, entry, -, -, -, saved⟩ := hu
  obtain ⟨hF₁, hentries, c, hloaded, hclean⟩ := hF.saved entry saved
  exact hF₁.leave (hentries ▸ entry) hloaded hclean

/-- **Nothing is lost when collections leave the cache.** -/
theorem Holdings.Faithful.sheds {exclude : Option ObjectId} (hF : Faithful content H)
    (hs : Sheds exclude H H') : Faithful content H' := by
  induction hs with
  | refl => exact hF
  | tail _ hu ih => exact ih.unload hu

/-! ## Changing in memory -/

/-- Pins and locks, and marks of a change, may come and go. -/
theorem Holdings.Faithful.alter (hF : Faithful content H) (h : Handle)
    {f : Collection → Collection} (hcontent : ∀ c, (f c).content = c.content)
    (hdirty : ∀ c, (f c).dirty = false → c.dirty = false) : Faithful content (H.alter h f) := by
  intro id
  refine (hF id).congr rfl rfl fun k c _ hc => ?_
  simp only [Holdings.alter, Pool.get?_modify, hc]
  split
  · exact ⟨f c, rfl, hcontent c, hdirty c⟩
  · exact ⟨c, rfl, rfl, fun hclean => hclean⟩

theorem Holdings.Faithful.relocked (hF : Faithful content H) (hr : Relocked H H') :
    Faithful content H' := by
  intro id
  refine (hF id).congr (congrFun hr.entry id) (congrArg (Store.raw? · id) hr.store) ?_
  intro k c _ hc
  obtain ⟨lock, hlocked⟩ := hr.get? hc
  exact ⟨c.setLock lock, hlocked, rfl, fun hclean => hclean⟩

/-- A write that fails marks the collection again. -/
theorem Holdings.Faithful.flushed (hF : Faithful content H) (hentry : H.entry id = some h)
    (hf : Flushed h H H') : Faithful content H' ∧ H'.entry = H.entry := by
  cases hf with
  | passed => exact ⟨hF, rfl⟩
  | written loaded accepted => exact ⟨hF.write hentry loaded accepted, rfl⟩
  | @refused c loaded =>
    refine ⟨fun k => (hF k).congr rfl rfl fun j b _ hb => ?_, rfl⟩
    rw [Pool.get?_set]
    split
    · rename_i hj
      obtain rfl : c = b := by
        rw [← hj, loaded] at hb
        exact Option.some.inj hb
      exact ⟨c.setDirty true, by rw [hb]; rfl, rfl, fun hclean => by cases hclean⟩
    · exact ⟨b, hb, rfl, fun hclean => hclean⟩

theorem Holdings.Faithful.flushedEach {hs : List Handle} (hF : Faithful content H)
    (hcached : ∀ h ∈ hs, ∃ id, H.entry id = some h) (hf : FlushedEach hs H H') :
    Faithful content H' := by
  induction hf with
  | nil => exact hF
  | @cons h hs H H₁ H' first others ih =>
    obtain ⟨id, hentry⟩ := hcached h List.mem_cons_self
    obtain ⟨hF₁, hentries⟩ := hF.flushed hentry first
    refine ih hF₁ fun k hk => ?_
    rw [hentries]
    exact hcached k (List.mem_cons_of_mem h hk)

/-- **A cached record is changed**: it is marked, so what is stored need not be the same. -/
theorem Holdings.Faithful.mutate (hF : Faithful content H) (hentry : H.entry id = some h)
    (hloaded : H.pool.get? h = some c) (m : Mutation) (hfits : (m.apply c).content.Fits) :
    Faithful (Function.update content id (some (m.apply c).content)) (H.alter h m.apply) := by
  obtain ⟨c₀, hc₀, hid, -, hcontent, hsaved⟩ := (hF id).loaded hentry
  obtain rfl : c₀ = c := Option.some.inj (hc₀.symm.trans hloaded)
  have hself : (H.alter h m.apply).pool.get? h = some (m.apply c₀) := by
    rw [Holdings.alter, Pool.get?_modify, if_pos rfl, hloaded]
    rfl
  intro k
  by_cases hk : k = id
  · subst hk
    rw [Function.update_self]
    rcases m.apply_cases c₀ with hsame | ⟨r, hchange, hr, -⟩
    · rw [hsame] at hself hfits ⊢
      exact .cached hentry hself hid hfits hsaved
    · rw [hchange] at hself hfits ⊢
      exact .cached hentry hself (hr.trans hid) hfits fun hclean => by cases hclean
  · rw [Function.update_of_ne hk]
    refine (hF k).congr rfl rfl fun j b hj hb => ⟨b, ?_, rfl, fun hclean => hclean⟩
    rw [Holdings.alter, Pool.get?_modify, if_neg (hF.handle_ne hentry hj hk)]
    exact hb

/-! ## Bringing in -/

/-- A new instance changes nothing of what is cached. -/
theorem Holdings.Faithful.load (hF : Faithful content H) (c : Collection) :
    Faithful content (H.load c) := by
  intro id
  exact (hF id).congr rfl rfl fun k b _ hb => ⟨b, get?_load_of_some hb c, rfl, fun hclean => hclean⟩

theorem Holdings.Faithful.enter (hF : Faithful content H) (hloaded : H.pool.get? h = some c)
    (hid : c.content.id = id) (hfits : c.content.Fits)
    (hsaved : c.dirty = false → H.store.Has id c.content) :
    Faithful (Function.update content id (some c.content)) (H.enter id h) := by
  intro k
  by_cases hk : k = id
  · subst hk
    rw [Function.update_self]
    exact .cached (if_pos rfl) hloaded hid hfits hsaved
  · rw [Function.update_of_ne hk]
    exact (hF k).congr (if_neg hk) rfl fun j b _ hb => ⟨b, hb, rfl, fun hclean => hclean⟩

/-- **A new collection that is cached has its record known**; one that is turned away leaves
everything as it was. -/
theorem Holdings.Faithful.brought {result : Except Cache.Error Handle} (hF : Faithful content H)
    (hnew : H.entry c.content.id = none) (hfits : c.content.Fits)
    (hsaved : c.dirty = false → H.store.Has c.content.id c.content)
    (hb : Brought H c result H') :
    (∀ h, result = .ok h →
      Faithful (Function.update content c.content.id (some c.content)) H') ∧
      ∀ e, result = .error e → Faithful content H' := by
  cases hb with
  | cached new sheds =>
    refine ⟨fun h _ => ?_, fun e he => by cases he⟩
    exact ((hF.load c).enter (get?_load_fresh H c) rfl hfits hsaved).sheds sheds
  | rejected new e => exact ⟨fun h hh => by (cases hh), fun e _ => hF.load c⟩
  | replaced old saved => rw [hnew] at old; cases old

/-- **Opening changes no record**, and whoever opens an identity gets its record. -/
theorem Holdings.Faithful.opened {timeout : Option Duration}
    {result : Except Database.Error (Option Handle)} (hF : Faithful content H)
    (ho : Opened H id timeout result H') :
    Faithful content H' ∧
      ∀ r, content id = some r → (∃ e, result = .error (.cache e)) ∨
        ∃ h c, result = .ok (some h) ∧ H'.pool.get? h = some c ∧ c.content = r := by
  cases ho with
  | @cached h entry =>
    refine ⟨hF.alter h (fun _ => rfl) fun _ hclean => hclean, fun r hr => Or.inr ?_⟩
    obtain ⟨c, hloaded, -, -, hcontent, -⟩ := (hF id).loaded entry
    obtain rfl := Option.some.inj (hr.symm.trans hcontent)
    refine ⟨h, c.pin, rfl, ?_, rfl⟩
    rw [Holdings.alter, Pool.get?_modify, if_pos rfl, hloaded]
    rfl
  | absent new missing =>
    refine ⟨hF, fun r hr => ?_⟩
    obtain ⟨-, block, hraw, -⟩ := (hr ▸ hF id).has new
    rw [missing] at hraw
    cases hraw
  | damaged new stored unreadable =>
    refine ⟨hF, fun r hr => ?_⟩
    obtain ⟨-, block, hraw, hread⟩ := (hr ▸ hF id).has new
    obtain rfl := Option.some.inj (stored.symm.trans hraw)
    rw [unreadable] at hread
    cases hread
  | @loaded block r found H' new stored readable brought =>
    -- what was read is the record that there should be, since it was stored
    have hrecord : content id = some r := by
      cases hcontent : content id with
      | none =>
        cases hcontent ▸ hF id with
        | unknown _ missing => rw [missing] at stored; cases stored
      | some r' =>
        obtain ⟨-, block', hraw, hread⟩ := (hcontent ▸ hF id).has new
        obtain rfl := Option.some.inj (stored.symm.trans hraw)
        rw [readable] at hread
        cases hread
        rfl
    obtain ⟨rfl, hhas⟩ := (hrecord ▸ hF id).has new
    obtain ⟨hok, herror⟩ := hF.brought (c := Collection.ofRecord r timeout) new
      (Record.fits_of_ofBytes readable) (fun _ => hhas) brought
    have hsame : Function.update content r.id (some r) = content := by
      rw [← hrecord]
      exact Function.update_eq_self r.id content
    cases found with
    | error e => exact ⟨herror e rfl, fun _ _ => Or.inl ⟨e, rfl⟩⟩
    | ok h =>
      have hF' : Faithful content H' := hsame ▸ hok h rfl
      refine ⟨hF', fun r' hr' => Or.inr ?_⟩
      obtain rfl := Option.some.inj (hrecord.symm.trans hr')
      obtain ⟨c, hloaded, -, -, hcontent, -⟩ := (hF' r.id).loaded brought.entry_eq
      exact ⟨h, c, rfl, hloaded, (Option.some.inj (hrecord.symm.trans hcontent)).symm⟩

end

/-! ## Sessions -/

/-- The records that a store holds at first. -/
def Store.contents (s : Store) (id : ObjectId) : Option Record :=
  (s.raw? id).bind fun block => (Record.ofBytes block).toOption

/-- Every record that is stored can be read and is filed under its identity. -/
def Store.Orderly (s : Store) : Prop :=
  ∀ id block, s.raw? id = some block → ∃ r, Record.ofBytes block = .ok r ∧ r.id = id

namespace Session

variable {τ : Type}

/-- Clients create collections only where none is cached, and change only cached ones; and what
they write fits into memory. -/
def Admits (s : Session τ) : Action → Prop
  | .create id name => s.database.cache.base.contains id = false ∧ Codec.Fits name
  | .mutate h m =>
    (∃ id, s.database.cache.base.entries.get? id = some h) ∧
      ∀ c, s.database.collection? h = some c → (m.apply c).content.Fits
  | _ => True

/-- The records that there should be after an action: one more after a creation that succeeds, and
a changed one after a change. -/
def track (s : Session τ) (content : ObjectId → Option Record) :
    Action → ObjectId → Option Record
  | .create id name =>
    match (s.database.create id name).1 with
    | .ok _ => Function.update content id (some { id, name })
    | .error _ => content
  | .mutate h m =>
    match s.database.collection? h with
    | some c => Function.update content c.content.id (some (m.apply c).content)
    | none => content
  | _ => content

/-- **A session with the records that there should be.**  It starts with a new database over a
store. -/
inductive Tracked (settings : Settings) (store : Store) :
    Session τ → (ObjectId → Option Record) → Prop
  | start {d : Database} (fresh : Database.new settings store = .ok d) :
      Tracked settings store { database := d } store.contents
  | step {s : Session τ} {content : ObjectId → Option Record}
      (before : Tracked settings store s content) (a : Action) (admitted : s.Admits a) :
      Tracked settings store (s.perform a) (s.track content a)

section
variable {settings : Settings} {store : Store} {s : Session τ} {content : ObjectId → Option Record}

/-- A new database has the records of its store. -/
theorem faithful_start {d : Database} (hstore : store.Orderly)
    (fresh : Database.new settings store = .ok d) : Faithful store.contents d.holdings := by
  rw [(Database.new_ok fresh).2]
  intro id
  unfold Store.contents
  cases hraw : store.raw? id with
  | none => exact .unknown rfl hraw
  | some block =>
    obtain ⟨r, hread, hid⟩ := hstore id block hraw
    show Knows _ id ((Record.ofBytes block).toOption)
    rw [hread]
    exact .stored rfl hid ⟨block, hraw, hread⟩

/-- **Every action keeps the records as they should be.** -/
theorem faithful_perform (hd : s.database.Wired) (hF : Faithful content s.database.holdings)
    {a : Action} (admitted : s.Admits a) :
    Faithful (s.track content a) (s.perform a).database.holdings := by
  cases a with
  | create id name =>
    obtain ⟨hcached, hname⟩ := admitted
    have hnew : s.database.holdings.entry id = none := by
      rw [Cache.contains, Table.contains_eq] at hcached
      cases hentry : s.database.cache.base.entries.get? id with
      | none => exact hentry
      | some h => rw [hentry] at hcached; cases hcached
    obtain ⟨result, hresult, hbrought, -⟩ := Database.create_brought hd id name
    obtain ⟨hok, herror⟩ := hF.brought hnew (Record.fits_new id hname)
      (fun hclean => by cases hclean) hbrought
    unfold track
    cases result with
    | error e =>
      simp only [hresult]
      exact herror e rfl
    | ok h =>
      simp only [hresult]
      exact hok h rfl
  | openById id => exact (hF.opened (Database.openById_opened hd id).1).1
  | openByName name =>
    obtain ⟨⟨id, hopened⟩ | ⟨-, hsame⟩, -⟩ := Database.openByName_opened hd name
    · exact (hF.opened hopened).1
    · show Faithful content (s.database.openByName name).2.holdings
      rw [hsame]
      exact hF
  | release h => exact hF.alter h Instance.unpin_content fun c hclean => c.unpin_dirty ▸ hclean
  | mutate h m =>
    obtain ⟨⟨id, hentry⟩, hfits⟩ := admitted
    obtain ⟨c, hloaded, hid, -, -, -⟩ := (hF id).loaded hentry
    have htrack : s.track content (.mutate h m) =
        Function.update content id (some (m.apply c).content) := by
      have hc : s.database.collection? h = some c := hloaded
      simp only [track, hc, hid]
    rw [htrack]
    exact hF.mutate hentry hloaded m (hfits c hloaded)
  | begin => exact hF.relocked (s.relocked_perform (a := .begin) trivial).1
  | lock n h mode => exact hF.relocked (s.relocked_perform (a := .lock n h mode) trivial).1
  | finish n how => exact hF.relocked (s.relocked_perform (a := .finish n how) trivial).1
  | waiting h writers => exact hF.relocked (s.relocked_perform (a := .waiting h writers) trivial).1
  | flushDirty =>
    obtain ⟨hs, hcached, hflushed, -⟩ := s.database.flushDirty_flushed
    exact hF.flushedEach hcached hflushed
  | evict => exact hF.sheds (Database.evict_sheds hd).1
  | resize capacity => exact hF.sheds (Database.resize_sheds hd capacity).1
  | setReadOnly readOnly =>
    exact fun id => (hF id).congr rfl rfl fun h c _ hc => ⟨c, hc, rfl, fun hclean => hclean⟩

theorem Tracked.faithful (run : Tracked settings store s content) (hstore : store.Orderly) :
    s.database.Wired ∧ Faithful content s.database.holdings := by
  induction run with
  | start fresh => exact ⟨(Database.new_ok fresh).1, faithful_start hstore fresh⟩
  | step before a admitted ih => exact ⟨wired_perform ih.1 a, faithful_perform ih.1 ih.2 admitted⟩

/-- **No update is lost.**  A cached collection has the record that there should be, and if it is
clean the store has it too; a record that there should be and that is not cached is stored; and
whoever opens it gets it, unless the cache has no room. -/
theorem Tracked.nothing_lost (run : Tracked settings store s content) (hstore : store.Orderly)
    (id : ObjectId) :
    (∀ h, s.database.cache.base.entries.get? id = some h →
      ∃ c, s.database.collection? h = some c ∧ content id = some c.content ∧
        (c.dirty = false → ∀ timeout,
          s.database.store.load id timeout = .ok (some (Collection.ofRecord c.content timeout)))) ∧
    (∀ r, content id = some r → s.database.cache.base.entries.get? id = none →
      ∀ timeout, s.database.store.load id timeout = .ok (some (Collection.ofRecord r timeout))) ∧
    (∀ r, content id = some r →
      (∃ e, (s.database.openById id).1 = .error (.cache e)) ∨
        ∃ h c, (s.database.openById id).1 = .ok (some h) ∧
          (s.database.openById id).2.collection? h = some c ∧ c.content = r) := by
  obtain ⟨hd, hF⟩ := run.faithful hstore
  refine ⟨fun h hentry => ?_, fun r hr hnew => ?_, ?_⟩
  · obtain ⟨c, hloaded, -, -, hcontent, hsaved⟩ := (hF id).loaded hentry
    exact ⟨c, hloaded, hcontent, fun hclean => Store.load_of_has (hsaved hclean)⟩
  · exact Store.load_of_has ((hr ▸ hF id).has hnew).2
  · exact (hF.opened (Database.openById_opened hd id).1).2

end

/-- A collection that was changed and evicted is stored as it was last. -/
theorem nothing_lost_by_eviction :
    let s₀ : Session Unit := { database := narrowDatabase }
    let s₁ := s₀.perform (.create 1 "/db")
    let s₂ := s₁.perform (.mutate 0 (.addChild "system"))
    let s₃ := s₂.perform (.release 0)
    let s := s₃.perform .evict
    s.database.cache.base.entries.get? 1 = none ∧
      s.database.store.load 1 none =
        .ok (some (Collection.ofRecord { id := 1, name := "/db", children := ["system"] } none)) := by
  intro s₀ s₁ s₂ s₃ s
  have hstore : Store.Orderly {} := fun _ _ h => by cases h
  have hchange : ∀ c, s₁.database.collection? 0 = some c →
      ((Mutation.addChild "system").apply c).content.Fits := by
    intro c hc
    cases hc
    decide
  have created : Tracked narrow {} s₁ _ :=
    (Tracked.start new_narrow).step (.create 1 "/db") ⟨by decide, by decide⟩
  have changed : Tracked narrow {} s₂ _ :=
    created.step (.mutate 0 (.addChild "system")) ⟨⟨1, by decide⟩, hchange⟩
  have run : Tracked narrow {} s _ := (changed.step (.release 0) trivial).step .evict trivial
  have hnew : s.database.cache.base.entries.get? 1 = none := by decide
  exact ⟨hnew, (run.nothing_lost hstore 1).2.1 _ (by decide) hnew none⟩

end Session
end Folio
