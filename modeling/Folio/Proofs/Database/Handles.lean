import Folio.Proofs.Database.Holds

/-! # Handles and pins

Whoever creates or opens a collection is given a handle to its instance and has it pinned until
the handle is given back.  Beside the database runs the list of the handles that are out, each as
often as it was given and not taken back.  `Tallied` says what the two have to do with each other:
every handle that is out is the one that is cached under its identity, and has as many pins as it
is out.  Eviction keeps this because it passes over what is pinned, and a new instance is only
brought in where none is cached.  **`Custody.pins_exact`** says so of every run, in which the
stages of opening and of writing back may be interleaved.
-/
namespace Folio

open Cache (Handle Instance Pool)
open Holdings

namespace Holdings

/-- **Every handle that is out is cached, and its pins are counted.** -/
structure Tallied (out : List Handle) (H : Holdings) : Prop where
  filed : H.Filed
  sorted : H.store.Sorted
  cached : ∀ h ∈ out, ∃ id, H.entry id = some h
  counted : ∀ id h c, H.entry id = some h → H.pool.get? h = some c →
    c.refCount.toNat = out.count h

/-- What decides on a tally is the same in both: the entries, and identity and pins of every
instance. -/
structure Steady (H H' : Holdings) : Prop where
  entry : H'.entry = H.entry
  sorted : H.store.Sorted → H'.store.Sorted
  loaded : ∀ h, (H'.pool.get? h).map (fun c => (c.content.id, c.refCount)) =
    (H.pool.get? h).map fun c => (c.content.id, c.refCount)

section
variable {H H' : Holdings} {out : List Handle} {h : Handle} {c : Collection} {id : ObjectId}

/-! ## Changes that are no matter of pins -/

theorem Steady.get? (hs : Steady H H') (hc : H.pool.get? h = some c) :
    ∃ c', H'.pool.get? h = some c' ∧ c'.content.id = c.content.id ∧ c'.refCount = c.refCount := by
  have hsame := hs.loaded h
  rw [hc] at hsame
  obtain ⟨c', hc', heq⟩ := Option.map_eq_some_iff.1 hsame
  exact ⟨c', hc', (Prod.mk.inj heq).1, (Prod.mk.inj heq).2⟩

theorem Remarked.steady (hr : Remarked H H') : Steady H H' := by
  refine ⟨hr.entry, hr.sorted, fun h => ?_⟩
  have hsame := congrArg (Option.map fun c => (c.content.id, c.refCount)) (hr.loaded h)
  rwa [Option.map_map, Option.map_map] at hsame

theorem Relocked.steady (hr : Relocked H H') : Steady H H' := by
  refine ⟨hr.entry, fun hs => hr.store ▸ hs, fun h => ?_⟩
  have hsame := congrArg (Option.map fun c => (c.content.id, c.refCount)) (hr.loaded h)
  rwa [Option.map_map, Option.map_map] at hsame

theorem steady_alter (H : Holdings) (h : Handle) {f : Collection → Collection}
    (hf : ∀ c, (f c).content.id = c.content.id ∧ (f c).refCount = c.refCount) :
    Steady H (H.alter h f) := by
  refine ⟨rfl, id, fun k => ?_⟩
  simp only [alter, Pool.get?_modify]
  split
  · rw [Option.map_map]
    refine congrArg (Option.map · (H.pool.get? k)) (funext fun c => ?_)
    exact Prod.ext (hf c).1 (hf c).2
  · rfl

theorem Tallied.steady (ht : Tallied out H) (hs : Steady H H') : Tallied out H' where
  filed id h hentry := by
    rw [hs.entry] at hentry
    obtain ⟨c, hc, hid⟩ := ht.filed id h hentry
    obtain ⟨c', hc', hsame, -⟩ := hs.get? hc
    exact ⟨c', hc', hsame.trans hid⟩
  sorted := hs.sorted ht.sorted
  cached := by
    rw [hs.entry]
    exact ht.cached
  counted id h c' hentry hc' := by
    rw [hs.entry] at hentry
    obtain ⟨c, hc, -⟩ := ht.filed id h hentry
    obtain ⟨c'', hc'', -, hpins⟩ := hs.get? hc
    obtain rfl : c'' = c' := Option.some.inj (hc''.symm.trans hc')
    rw [hpins]
    exact ht.counted id h c hentry hc

/-! ## Leaving -/

theorem Tallied.leave (ht : Tallied out H) (hplace : ∀ h ∈ out, H.entry id ≠ some h) :
    Tallied out (H.leave id) where
  filed k h hentry := by
    have hleft : (if k = id then none else H.entry k) = some h := hentry
    split at hleft
    · cases hleft
    · exact ht.filed k h hleft
  sorted := ht.sorted
  cached h hout := by
    obtain ⟨k, hentry⟩ := ht.cached h hout
    have hk : k ≠ id := by
      rintro rfl
      exact hplace h hout hentry
    exact ⟨k, (if_neg hk).trans hentry⟩
  counted k h c hentry hc := by
    have hleft : (if k = id then none else H.entry k) = some h := hentry
    split at hleft
    · cases hleft
    · exact ht.counted k h c hleft hc

/-- **What is out does not leave the cache**, since it is pinned. -/
theorem Tallied.unload {exclude : Option ObjectId} (ht : Tallied out H)
    (hu : Unload exclude H H') : Tallied out H' := by
  obtain ⟨-, entry, loaded, unpinned, -, saved⟩ := hu
  refine (ht.steady saved.remarked.steady).leave fun k hout hentry => ?_
  rw [saved.entry_eq, entry] at hentry
  obtain rfl := Option.some.inj hentry
  have hcount := ht.counted _ _ _ entry loaded
  have hpos := List.count_pos_iff.2 hout
  rw [unpinned] at hcount
  rw [← hcount] at hpos
  exact absurd hpos (Nat.lt_irrefl 0)

theorem Tallied.sheds {exclude : Option ObjectId} (ht : Tallied out H)
    (hs : Sheds exclude H H') : Tallied out H' := by
  induction hs with
  | refl => exact ht
  | tail _ hu ih => exact ih.unload hu

/-! ## Coming -/

/-- Nothing is known of the next handle. -/
theorem Tallied.fresh (ht : Tallied out H) :
    (∀ id, H.entry id ≠ some H.fresh) ∧ H.fresh ∉ out := by
  have hnot : ∀ id, H.entry id ≠ some H.fresh := by
    intro id hentry
    obtain ⟨c, hc, -⟩ := ht.filed id H.fresh hentry
    rw [get?_fresh] at hc
    cases hc
  refine ⟨hnot, fun hout => ?_⟩
  obtain ⟨id, hentry⟩ := ht.cached H.fresh hout
  exact hnot id hentry

/-- A new instance that is not cached is out to nobody. -/
theorem Tallied.load (ht : Tallied out H) (c : Collection) : Tallied out (H.load c) where
  filed id h hentry := by
    obtain ⟨b, hb, hid⟩ := ht.filed id h hentry
    exact ⟨b, get?_load_of_some hb c, hid⟩
  sorted := ht.sorted
  cached := ht.cached
  counted id h b' hentry hb' := by
    obtain ⟨b, hb, -⟩ := ht.filed id h hentry
    obtain rfl : b = b' := Option.some.inj ((get?_load_of_some hb c).symm.trans hb')
    exact ht.counted id h b hentry hb

/-- **A new instance is cached where none was**, and is out once. -/
theorem Tallied.enter (ht : Tallied out H) (hnew : H.entry c.content.id = none) :
    Tallied (H.fresh :: out) ((H.load c).enter c.content.id H.fresh) := by
  obtain ⟨hunknown, hout⟩ := ht.fresh
  have hload := ht.load c
  refine ⟨fun k h hentry => ?_, ht.sorted, fun h hh => ?_, fun k h b hentry hb => ?_⟩
  · have hentered : (if k = c.content.id then some H.fresh else H.entry k) = some h := hentry
    split at hentered
    · rename_i hk
      obtain rfl := Option.some.inj hentered
      exact ⟨_, get?_load_fresh H c, hk.symm⟩
    · exact hload.filed k h hentered
  · rcases List.mem_cons.1 hh with rfl | hh
    · exact ⟨c.content.id, if_pos rfl⟩
    · obtain ⟨k, hentry⟩ := ht.cached h hh
      have hk : k ≠ c.content.id := by
        rintro rfl
        rw [hnew] at hentry
        cases hentry
      exact ⟨k, (if_neg hk).trans hentry⟩
  · have hentered : (if k = c.content.id then some H.fresh else H.entry k) = some h := hentry
    split at hentered
    · obtain rfl := Option.some.inj hentered
      obtain rfl := Option.some.inj ((get?_load_fresh H c).symm.trans hb)
      rw [List.count_cons_self, List.count_eq_zero.2 hout]
      rfl
    · have hne : H.fresh ≠ h := by
        rintro rfl
        exact hunknown k hentered
      rw [List.count_cons_of_ne hne]
      exact hload.counted k h b hentered hb

/-- The handles that a result gives out. -/
def given {ε : Type} (result : Except ε Handle) : List Handle := result.toOption.toList

/-- The handles that an opening gives out. -/
def opened {ε : Type} (result : Except ε (Option Handle)) : List Handle :=
  result.toOption.join.toList

theorem Tallied.brought {result : Except Cache.Error Handle} (ht : Tallied out H)
    (hnew : H.entry c.content.id = none) (hb : Brought H c result H') :
    Tallied (given result ++ out) H' := by
  cases hb with
  | cached new sheds => exact (ht.enter hnew).sheds sheds
  | rejected new e => exact ht.load c
  | replaced old saved =>
    rw [hnew] at old
    cases old

/-! ## Pinning -/

theorem get?_alter (H : Holdings) (h k : Handle) (f : Collection → Collection) :
    (H.alter h f).pool.get? k =
      if h = k then (H.pool.get? k).map f else H.pool.get? k :=
  Pool.get?_modify H.pool h k f

/-- Only the pins of one instance change. -/
theorem Tallied.alter (ht : Tallied out H) {f : Collection → Collection}
    (hid : ∀ c, (f c).content.id = c.content.id) {out' : List Handle}
    (hcached : ∀ h ∈ out', ∃ id, H.entry id = some h)
    (hsame : ∀ k, k ≠ h → out'.count k = out.count k)
    (hcounted : ∀ c, c.refCount.toNat = out.count h → (f c).refCount.toNat = out'.count h) :
    Tallied out' (H.alter h f) where
  filed k j hentry := by
    obtain ⟨c, hc, hk⟩ := ht.filed k j hentry
    rw [get?_alter, hc]
    split
    · exact ⟨f c, rfl, (hid c).trans hk⟩
    · exact ⟨c, rfl, hk⟩
  sorted := ht.sorted
  cached := hcached
  counted k j c' hentry hc' := by
    obtain ⟨c, hc, -⟩ := ht.filed k j hentry
    have hcount := ht.counted k j c hentry hc
    rw [get?_alter, hc] at hc'
    split at hc'
    · rename_i hj
      subst hj
      obtain rfl := Option.some.inj hc'
      exact hcounted c hcount
    · rename_i hj
      obtain rfl := Option.some.inj hc'
      rw [hsame j (Ne.symm hj)]
      exact hcount

/-- **A cached instance is pinned once more**, as long as its pins can be counted. -/
theorem Tallied.pin (ht : Tallied out H) (hentry : H.entry id = some h)
    (hfew : (h :: out).length < UInt32.size) : Tallied (h :: out) (H.alter h Instance.pin) := by
  refine ht.alter (f := Instance.pin) (fun _ => rfl) (fun k hk => ?_) (fun k hk => ?_)
    fun c hc => ?_
  · rcases List.mem_cons.1 hk with rfl | hk
    · exact ⟨id, hentry⟩
    · exact ht.cached k hk
  · exact List.count_cons_of_ne (Ne.symm hk)
  · have hle : out.count h ≤ out.length := List.count_le_length
    rw [List.length_cons] at hfew
    rw [List.count_cons_self, Instance.pin, UInt32.toNat_add, hc]
    exact Nat.mod_eq_of_lt (by show out.count h + 1 < UInt32.size; omega)

/-- A look in the cache pins what it finds. -/
theorem Tallied.looked {found : Option Handle} (ht : Tallied out H)
    (hlook : (∃ id h, H.entry id = some h ∧ found = some h ∧ H' = H.alter h Instance.pin) ∨
      (found = none ∧ H' = H))
    (hfew : (found.toList ++ out).length < UInt32.size) : Tallied (found.toList ++ out) H' := by
  rcases hlook with ⟨id, h, hentry, rfl, rfl⟩ | ⟨rfl, rfl⟩
  · exact ht.pin hentry hfew
  · exact ht

/-- **A handle that is given back takes one pin with it.** -/
theorem Tallied.unpin (ht : Tallied out H) (hout : h ∈ out) :
    Tallied (out.erase h) (H.alter h Instance.unpin) := by
  refine ht.alter (fun c => congrArg (·.id) c.unpin_content) (fun k hk => ?_) (fun k hk => ?_)
    fun c hc => ?_
  · exact ht.cached k (List.mem_of_mem_erase hk)
  · exact List.count_erase_of_ne hk
  · have hpos := List.count_pos_iff.2 hout
    have hne : c.refCount ≠ 0 := by
      intro hzero
      rw [hzero] at hc
      rw [← hc] at hpos
      exact absurd hpos (Nat.lt_irrefl 0)
    have hone : (1 : UInt32) ≤ c.refCount := by
      rw [UInt32.le_iff_toNat_le, hc]
      exact hpos
    rw [List.count_erase_self, Instance.unpin, if_neg hne, UInt32.toNat_sub_of_le _ _ hone, hc]
    rfl

theorem Tallied.opened {timeout : Option Duration}
    {result : Except Database.Error (Option Handle)} (ht : Tallied out H)
    (ho : Opened H id timeout result H')
    (hfew : (Holdings.opened result ++ out).length < UInt32.size) :
    Tallied (Holdings.opened result ++ out) H' := by
  cases ho with
  | cached entry => exact ht.pin entry hfew
  | absent => exact ht
  | damaged => exact ht
  | @loaded block r found _ new stored readable brought =>
    -- what is stored under the identity has it, so no other instance is cached in its place
    have hid : r.id = id := ht.sorted id block r stored readable
    have hnew : H.entry (Collection.ofRecord r timeout).content.id = none := by
      show H.entry r.id = none
      rw [hid]
      exact new
    have hbrought := ht.brought hnew brought
    cases found <;> exact hbrought

/-! ## Who is given what -/

/-- A new collection is given out as the one that is cached under its identity. -/
theorem Brought.given_cached {result : Except Cache.Error Handle} (hb : Brought H c result H') :
    ∀ h ∈ given result, H'.entry c.content.id = some h := by
  intro h hh
  cases result with
  | error e => cases hh
  | ok k =>
    obtain rfl : h = k := List.mem_singleton.1 hh
    exact hb.entry_eq

/-- **Whoever opens an identity is given the instance that is cached under it.** -/
theorem Opened.given_cached {timeout : Option Duration}
    {result : Except Database.Error (Option Handle)} (hsorted : H.store.Sorted)
    (ho : Opened H id timeout result H') :
    ∀ h ∈ Holdings.opened result, H'.entry id = some h := by
  intro h hh
  cases ho with
  | cached entry =>
    obtain rfl := List.mem_singleton.1 hh
    exact entry
  | absent => cases hh
  | damaged => cases hh
  | @loaded block r found _ new stored readable brought =>
    have hid : r.id = id := hsorted id block r stored readable
    have hcached := brought.given_cached
    cases found with
    | error e => cases hh
    | ok k =>
      obtain rfl : h = k := List.mem_singleton.1 hh
      have hentry : H'.entry r.id = some h := hcached h (List.mem_singleton.2 rfl)
      rwa [hid] at hentry

end
end Holdings

/-! ## Stages of operations -/

/-- What happens next in a session: an action, or a stage of one, since other clients may come
between the stages of an opening, or between the collections that are written back. -/
inductive Event where
  | act (a : Action)
  /-- The first look of an opening by identity. -/
  | look (id : ObjectId)
  /-- The first look of an opening by name. -/
  | lookByName (name : String)
  /-- The second look of an opening, and loading. -/
  | fetch (id : ObjectId)
  /-- One collection is written back. -/
  | flush (h : Handle)
deriving DecidableEq, Repr

namespace Session

variable {τ : Type}

def advance (s : Session τ) : Event → Session τ
  | .act a => s.perform a
  | .look id => { s with database := (s.database.checkout id).2 }
  | .lookByName name => { s with database := (s.database.checkoutByName name).2 }
  | .fetch id => { s with database := (s.database.fetch id).2 }
  | .flush h => { s with database := (s.database.flushOne h).2 }

/-- The handles that are out after an event: one more for whoever creates or opens a collection, and
one less when a handle is given back. -/
def handles (s : Session τ) (out : List Handle) : Event → List Handle
  | .act (.create id name) => given (s.database.create id name).1 ++ out
  | .act (.openById id) => opened (s.database.openById id).1 ++ out
  | .act (.openByName name) => opened (s.database.openByName name).1 ++ out
  | .act (.release h) => out.erase h
  | .look id => (s.database.checkout id).1.toList ++ out
  | .lookByName name => (s.database.checkoutByName name).1.toList ++ out
  | .fetch id => opened (s.database.fetch id).1 ++ out
  | _ => out

/-- Clients create collections only where none is cached, and give back only what they have. -/
def Permits (s : Session τ) (out : List Handle) : Event → Prop
  | .act (.create id _) => s.database.cache.base.contains id = false
  | .act (.release h) => h ∈ out
  | _ => True

/-- **A session with the handles that are out**, fewer than can be counted. -/
inductive Custody (settings : Settings) (store : Store) : Session τ → List Handle → Prop
  | start {d : Database} (fresh : Database.new settings store = .ok d) :
      Custody settings store { database := d } []
  | step {s : Session τ} {out : List Handle} (before : Custody settings store s out) (e : Event)
      (permitted : s.Permits out e) (few : (s.handles out e).length < UInt32.size) :
      Custody settings store (s.advance e) (s.handles out e)

section
variable {settings : Settings} {store : Store} {s : Session τ} {out : List Handle}

theorem wired_advance (hd : s.database.Wired) (e : Event) : (s.advance e).database.Wired := by
  cases e with
  | act a => exact wired_perform hd a
  | look id => exact (Database.checkout_cases hd id).1
  | lookByName name => exact (Database.checkoutByName_cases hd name).1
  | fetch id => exact (Database.fetch_opened hd id).2
  | flush h => exact hd.of_cache (s.database.flushOne_flushed h).2

theorem tallied_perform (hd : s.database.Wired) (ht : Tallied out s.database.holdings) {a : Action}
    (permitted : s.Permits out (.act a)) (few : (s.handles out (.act a)).length < UInt32.size) :
    Tallied (s.handles out (.act a)) (s.perform a).database.holdings := by
  cases a with
  | create id name =>
    have hnew : s.database.holdings.entry id = none := by
      have hcached : (s.database.cache.base.entries.get? id).isSome = false := permitted
      exact Option.isSome_eq_false_iff.1 hcached |> Option.isNone_iff_eq_none.1
    obtain ⟨result, hresult, hbrought, -⟩ := Database.create_brought hd id name
    have hafter := ht.brought hnew hbrought
    have hgiven : given (s.database.create id name).1 = given result := by
      rw [hresult]
      cases result <;> rfl
    show Tallied (given (s.database.create id name).1 ++ out) _
    rw [hgiven]
    exact hafter
  | openById id => exact ht.opened (Database.openById_opened hd id).1 few
  | openByName name =>
    obtain ⟨⟨id, hopened⟩ | ⟨hnone, hsame⟩, -⟩ := Database.openByName_opened hd name
    · exact ht.opened hopened few
    · show Tallied (opened (s.database.openByName name).1 ++ out)
        (s.database.openByName name).2.holdings
      rw [hnone, hsame]
      exact ht
  | release h => exact ht.unpin permitted
  | mutate h m =>
    refine ht.steady (steady_alter _ h fun c => ?_)
    rcases m.apply_cases c with hsame | ⟨r, hchange, hid, -⟩
    · rw [hsame]
      exact ⟨rfl, rfl⟩
    · rw [hchange]
      exact ⟨hid, rfl⟩
  | begin => exact ht.steady (s.relocked_perform (a := .begin) trivial).1.steady
  | lock n h mode => exact ht.steady (s.relocked_perform (a := .lock n h mode) trivial).1.steady
  | finish n how => exact ht.steady (s.relocked_perform (a := .finish n how) trivial).1.steady
  | waiting h writers =>
    exact ht.steady (s.relocked_perform (a := .waiting h writers) trivial).1.steady
  | flushDirty =>
    obtain ⟨hs, -, hflushed, -⟩ := s.database.flushDirty_flushed
    exact ht.steady hflushed.remarked.steady
  | evict => exact ht.sheds (Database.evict_sheds hd).1
  | resize capacity => exact ht.sheds (Database.resize_sheds hd capacity).1
  | setReadOnly readOnly => exact ht.steady ⟨rfl, id, fun _ => rfl⟩

/-- **Every event keeps the tally.** -/
theorem tallied_advance (hd : s.database.Wired) (ht : Tallied out s.database.holdings) {e : Event}
    (permitted : s.Permits out e) (few : (s.handles out e).length < UInt32.size) :
    Tallied (s.handles out e) (s.advance e).database.holdings := by
  cases e with
  | act a => exact tallied_perform hd ht permitted few
  | look id =>
    refine ht.looked ?_ few
    rcases (Database.checkout_cases hd id).2 with ⟨h, hcached⟩ | ⟨-, hnone, hsame, -⟩
    · exact Or.inl ⟨id, h, hcached⟩
    · exact Or.inr ⟨hnone, hsame⟩
  | lookByName name =>
    refine ht.looked ?_ few
    rcases (Database.checkoutByName_cases hd name).2 with hcached | ⟨hnone, hsame, -⟩
    · exact Or.inl hcached
    · exact Or.inr ⟨hnone, hsame⟩
  | fetch id => exact ht.opened (Database.fetch_opened hd id).1 few
  | flush h => exact ht.steady (s.database.flushOne_flushed h).1.remarked.steady

theorem Custody.tallied (run : Custody settings store s out) (hstore : store.Sorted) :
    s.database.Wired ∧ Tallied out s.database.holdings := by
  induction run with
  | start fresh =>
    obtain ⟨hd, hholdings⟩ := Database.new_ok fresh
    refine ⟨hd, ?_⟩
    rw [hholdings]
    exact ⟨fun _ _ h => (by cases h), hstore, fun _ h => (by cases h), fun _ _ _ h => by cases h⟩
  | step before e permitted few ih =>
    exact ⟨wired_advance ih.1 e, tallied_advance ih.1 ih.2 permitted few⟩

/-- The handles of a collection that are out. -/
def handlesOf (s : Session τ) (out : List Handle) (id : ObjectId) : List Handle :=
  out.filter fun h => s.database.workspace.identity? h = some id

/-- What is cached under an identity has it. -/
theorem identity_of_filed {d : Database} {id : ObjectId} {h : Handle} (hf : d.holdings.Filed)
    (hentry : d.holdings.entry id = some h) : d.workspace.identity? h = some id := by
  obtain ⟨c, hc, hid⟩ := hf id h hentry
  have hloaded : d.workspace.pool.get? h = some c := hc
  rw [Cache.Workspace.identity?, hloaded]
  exact congrArg some hid

/-- The handles of a collection are those of the instance that is cached under its identity. -/
theorem cached_of_mem_handlesOf {id : ObjectId} {h : Handle} (ht : Tallied out s.database.holdings)
    (hmem : h ∈ s.handlesOf out id) : s.database.holdings.entry id = some h := by
  obtain ⟨hout, hid⟩ := List.mem_filter.1 hmem
  obtain ⟨k, hentry⟩ := ht.cached h hout
  have hk := identity_of_filed ht.filed hentry
  rw [of_decide_eq_true hid] at hk
  rwa [Option.some.inj hk]

theorem length_handlesOf {id : ObjectId} {h : Handle} (ht : Tallied out s.database.holdings)
    (hentry : s.database.holdings.entry id = some h) :
    (s.handlesOf out id).length = out.count h := by
  have hself := identity_of_filed ht.filed hentry
  rw [List.count_eq_length_filter, handlesOf]
  congr 1
  refine List.filter_congr fun k hk => ?_
  rw [Bool.eq_iff_iff, decide_eq_true_iff, beq_iff_eq]
  refine ⟨fun hid => ?_, fun heq => heq ▸ hself⟩
  have hmem : k ∈ s.handlesOf out id := List.mem_filter.2 ⟨hk, decide_eq_true hid⟩
  exact Option.some.inj ((cached_of_mem_handlesOf ht hmem).symm.trans hentry)

/-- **One live copy, and exactly as many pins as handles.**  All handles of a collection that are
out are handles of one instance, the one that is cached under its identity, and its reference count
is their number.  Every handle that is out is a handle of some collection, and whoever creates or
opens an identity is given a handle of that. -/
theorem Custody.pins_exact (run : Custody settings store s out) (hstore : store.Sorted)
    (id : ObjectId) :
    (∀ h ∈ s.handlesOf out id, s.database.cache.base.entries.get? id = some h) ∧
    (∀ h, s.database.cache.base.entries.get? id = some h →
      ∃ c, s.database.collection? h = some c ∧
        c.refCount.toNat = (s.handlesOf out id).length) ∧
    (∀ h ∈ out, ∃ k, h ∈ s.handlesOf out k) ∧
    (∀ name, ∀ h ∈ given (s.database.create id name).1,
      (s.database.create id name).2.workspace.identity? h = some id) ∧
    (∀ h ∈ opened (s.database.openById id).1,
      (s.database.openById id).2.workspace.identity? h = some id) := by
  obtain ⟨hd, ht⟩ := run.tallied hstore
  refine ⟨fun h hh => cached_of_mem_handlesOf ht hh, fun h hentry => ?_, fun h hh => ?_,
    fun name h hh => ?_, fun h hh => ?_⟩
  · obtain ⟨c, hc, -⟩ := ht.filed id h hentry
    exact ⟨c, hc, (ht.counted id h c hentry hc).trans (length_handlesOf ht hentry).symm⟩
  · obtain ⟨k, hentry⟩ := ht.cached h hh
    exact ⟨k, List.mem_filter.2 ⟨hh, decide_eq_true (identity_of_filed ht.filed hentry)⟩⟩
  · obtain ⟨result, hresult, hbrought, -⟩ := Database.create_brought hd id name
    have hleads : Leads (fun _ => False) s.database.holdings
        (s.database.create id name).2.holdings :=
      hbrought.leads rfl rfl (fun _ hf => hf.elim) fun _ hf => hf.elim
    have hgiven : h ∈ given result := by
      rw [hresult] at hh
      cases result <;> exact hh
    exact identity_of_filed (hleads.filed ht.filed) (hbrought.given_cached h hgiven)
  · have hopened := (Database.openById_opened hd id).1
    have hleads : Leads (fun _ => False) s.database.holdings
        (s.database.openById id).2.holdings :=
      hopened.leads (fun _ hf => hf.elim) fun _ hf => hf.elim
    exact identity_of_filed (hleads.filed ht.filed) (hopened.given_cached ht.sorted h hh)

/-- Two clients that open the same collection find nothing at first, since it was evicted; the one
that fetches it second is given what the first one has loaded. -/
theorem pins_exact_after_misses :
    ∃ s : Session Unit, Custody narrow {} s [1, 1] ∧
      s.database.workspace.identity? 0 = some 1 ∧ s.handlesOf [1, 1] 1 = [1, 1] ∧
      s.database.cache.base.entries.get? 1 = some 1 ∧
      ∃ c, s.database.collection? 1 = some c ∧ c.refCount.toNat = 2 := by
  let s₀ : Session Unit := { database := narrowDatabase }
  let s₁ := s₀.advance (.act (.create 1 "/db"))
  let s₂ := (s₁.advance (.act (.release 0))).advance (.act .evict)
  let s₃ := (s₂.advance (.look 1)).advance (.look 1)
  let s := (s₃.advance (.fetch 1)).advance (.fetch 1)
  have next {s : Session Unit} {out out' : List Handle} (before : Custody narrow {} s out)
      (e : Event) (permitted : s.Permits out e) (hout : s.handles out e = out')
      (few : out'.length < UInt32.size) : Custody narrow {} (s.advance e) out' := by
    subst hout
    exact before.step e permitted few
  have created : Custody narrow {} s₁ [0] :=
    next (.start new_narrow) (.act (.create 1 "/db")) rfl (by decide +kernel) (by decide)
  have released : Custody narrow {} _ [] :=
    next created (.act (.release 0)) List.mem_cons_self (by decide +kernel) (by decide)
  have evicted : Custody narrow {} s₂ [] :=
    next released (.act .evict) trivial (by decide +kernel) (by decide)
  have missed : Custody narrow {} _ [] :=
    next evicted (.look 1) trivial (by decide +kernel) (by decide)
  have missedTwice : Custody narrow {} s₃ [] :=
    next missed (.look 1) trivial (by decide +kernel) (by decide)
  have fetched : Custody narrow {} _ [1] :=
    next missedTwice (.fetch 1) trivial (by decide +kernel) (by decide)
  have run : Custody narrow {} s [1, 1] :=
    next fetched (.fetch 1) trivial (by decide +kernel) (by decide)
  have hstore : Store.Sorted {} := fun _ _ _ h => by cases h
  obtain ⟨hcached, hpins, -⟩ := run.pins_exact hstore 1
  have hhandles : s.handlesOf [1, 1] 1 = [1, 1] := by decide +kernel
  rw [hhandles] at hcached hpins
  have hentry := hcached 1 List.mem_cons_self
  exact ⟨s, run, by decide +kernel, hhandles, hentry, hpins 1 hentry⟩

end

end Session
end Folio
