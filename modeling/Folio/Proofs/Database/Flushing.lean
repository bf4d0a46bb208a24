import Folio.Proofs.Database.Annals
import Folio.Proofs.Database.Reach

/-! # Writing back while others are at work

Writing back notes the dirty collections in the cache and then writes one after the other, while
other clients go on.  Beside a run the annals are kept, and by `Annotated.recorded` they tell the
truth: what is stored is a state of the collection, and what is noted and still cached has the
newest.  So an older state takes the place of a newer one in one way only, by
`Annotated.overwrites_iff`: an instance that was noted has left the cache, another one was changed
and stored meanwhile, and then the first one is written.
-/
namespace Folio

open Cache (Handle Instance Pool)
open Holdings

/-! ## Runs -/

/-- A session in which collections are being written back. -/
structure Interleaving (τ : Type) where
  session : Session τ
  /-- What each flush has still to write, in the order in which the flushes began. -/
  pending : List (List Handle) := []

inductive Turn where
  | event (e : Event)
  /-- A flush begins and notes the dirty collections in the cache. -/
  | snapshot
  /-- The flush with number `n` writes the next of its collections. -/
  | step (n : Nat)
deriving DecidableEq, Repr

/-- The events that change no record, and that are not part of a flush. -/
def Event.Quiet : Event → Prop
  | .act (.create ..) | .act (.mutate ..) | .act .flushDirty | .flush _ => False
  | _ => True

namespace Interleaving

variable {τ : Type}

def next? (i : Interleaving τ) (n : Nat) : Option Handle := i.pending[n]?.bind List.head?

def advance (i : Interleaving τ) : Turn → Interleaving τ
  | .event e => { i with session := i.session.advance e }
  | .snapshot => { i with pending := i.pending ++ [i.session.database.dirtyHandles] }
  | .step n =>
    match i.next? n with
    | some h =>
      { session := i.session.advance (.flush h), pending := i.pending.modify n List.tail }
    | none => i

theorem step_of_next {i : Interleaving τ} {n : Nat} {h : Handle} (hnext : i.next? n = some h) :
    i.advance (.step n) =
      { session := i.session.advance (.flush h), pending := i.pending.modify n List.tail } := by
  simp only [advance, hnext]

/-- A flush that is done does nothing. -/
theorem step_of_done {i : Interleaving τ} {n : Nat} (hnext : i.next? n = none) :
    i.advance (.step n) = i := by
  simp only [advance, hnext]

/-- **A flush that nobody disturbs** writes back what is dirty. -/
theorem undisturbed (i : Interleaving τ) :
    ((List.replicate i.session.database.dirtyHandles.length (.step i.pending.length)).foldl advance
      (i.advance .snapshot)).session = i.session.perform .flushDirty := by
  have heach (hs : List Handle) (i : Interleaving τ) (n : Nat) (hn : i.pending[n]? = some hs) :
      ((List.replicate hs.length (.step n)).foldl advance i).session =
        { i.session with database := (i.session.database.flushEach hs).2 } := by
    induction hs generalizing i with
    | nil => rfl
    | cons h hs ih =>
      have hnext : i.next? n = some h := by rw [next?, hn]; rfl
      rw [List.length_cons, List.replicate_succ, List.foldl_cons, step_of_next hnext]
      refine (ih _ ?_).trans rfl
      rw [List.getElem?_modify, hn]
      simp
  refine heach _ _ _ ?_
  show (i.pending ++ [i.session.database.dirtyHandles])[i.pending.length]? = _
  simp

/-- An instance has been noted by a flush and not been written by it yet. -/
def Waiting (i : Interleaving τ) (h : Handle) : Prop := ∃ hs ∈ i.pending, h ∈ hs

/-- Clients change only cached collections, and what they write fits into memory; and collections
are flushed by the turns of flushes, which a flush without a break is a case of (`undisturbed`). -/
def Admits (i : Interleaving τ) : Turn → Prop
  | .event (.act (.create _ name)) => Codec.Fits name
  | .event (.act (.mutate h m)) =>
    (∃ id, i.session.database.cache.base.entries.get? id = some h) ∧
      ∀ c, i.session.database.collection? h = some c → (m.apply c).content.Fits
  | .event (.act .flushDirty) | .event (.flush _) => False
  | _ => True

theorem admits_mutate {i : Interleaving τ} (id : ObjectId) {h : Handle} {m : Mutation}
    (hcached : i.session.database.cache.base.entries.get? id = some h)
    (hfits : ((i.session.database.collection? h).all
      fun c => decide (m.apply c).content.Fits) = true) :
    i.Admits (.event (.act (.mutate h m))) :=
  ⟨⟨id, hcached⟩, fun c hc => by simpa [hc] using hfits⟩

end Interleaving

namespace Annals

section
variable {τ : Type}

/-- The annals after an event that is only observed. -/
def seen (a : Annals) (s : Session τ) (e : Event) : Annals :=
  a.observe s.database.holdings (s.advance e).database.holdings

/-- The annals after a turn. -/
def follow (a : Annals) (i : Interleaving τ) : Turn → Annals
  | .event (.act (.create id name)) =>
    let seen := a.seen i.session (.act (.create id name))
    match (i.session.database.create id name).1 with
    | .ok h => seen.append h { id, name }
    | .error _ => seen
  | .event (.act (.mutate h m)) =>
    match i.session.database.collection? h with
    | some c => a.append h (m.apply c).content
    | none => a
  | .event e => a.seen i.session e
  | .snapshot => a
  | .step n =>
    match i.next? n with
    | some h =>
      match i.session.database.collection? h with
      | some c => if (i.session.database.flushOne h).1 then a.write c.content.id h else a
      | none => a
    | none => a

end
end Annals

/-! ## Runs and their annals -/

/-- **A run with its annals**, from a new database over a store. -/
inductive Annotated {τ : Type} (settings : Settings) (store : Store) :
    Interleaving τ → Annals → Prop
  | start {d : Database} (fresh : Database.new settings store = .ok d) :
      Annotated settings store { session := { database := d } } (.start store)
  | turn {i : Interleaving τ} {a : Annals} (before : Annotated settings store i a) (t : Turn)
      (admitted : i.Admits t) : Annotated settings store (i.advance t) (a.follow i t)

namespace Interleaving

section
variable {τ : Type} {i : Interleaving τ} {a : Annals} {e : Event}

/-- **Quiet events change no record.** -/
theorem shifts_advance {s : Session τ} (hd : s.database.Wired) (hf : s.database.holdings.Filed)
    (quiet : e.Quiet) : Shifts s.database.holdings (s.advance e).database.holdings := by
  cases e with
  | act action =>
    cases action with
    | openById id => exact (Database.openById_opened hd id).1.shifts hf
    | openByName name =>
      obtain ⟨⟨id, hopened⟩ | ⟨-, hsame⟩, -⟩ := Database.openByName_opened hd name
      · exact hopened.shifts hf
      · show Shifts _ (s.database.openByName name).2.holdings
        rw [hsame]
        exact .refl _
    | release h => exact shifts_alter h Instance.unpin_content Instance.unpin_dirty
    | begin => exact (s.relocked_perform (a := .begin) trivial).1.shifts
    | lock n h mode => exact (s.relocked_perform (a := .lock n h mode) trivial).1.shifts
    | finish n how => exact (s.relocked_perform (a := .finish n how) trivial).1.shifts
    | waiting h writers => exact (s.relocked_perform (a := .waiting h writers) trivial).1.shifts
    | evict => exact (Database.evict_sheds hd).1.shifts hf
    | resize capacity => exact (Database.resize_sheds hd capacity).1.shifts hf
    | setReadOnly readOnly =>
      exact shifts_nothing rfl (fun _ => rfl) fun h c hc => ⟨c, hc, rfl, rfl⟩
    | _ => exact quiet.elim
  | look id =>
    show Shifts _ (s.database.checkout id).2.holdings
    rcases (Database.checkout_cases hd id).2 with ⟨h, -, -, hpinned⟩ | ⟨-, -, hsame, -⟩
    · rw [hpinned]
      exact shifts_alter h (fun _ => rfl) fun _ => rfl
    · rw [hsame]
      exact .refl _
  | lookByName name =>
    show Shifts _ (s.database.checkoutByName name).2.holdings
    rcases (Database.checkoutByName_cases hd name).2 with ⟨_, h, -, -, hpinned⟩ | ⟨-, hsame, -⟩
    · rw [hpinned]
      exact shifts_alter h (fun _ => rfl) fun _ => rfl
    · rw [hsame]
      exact .refl _
  | fetch id => exact (Database.fetch_opened hd id).1.shifts hf
  | flush h => exact quiet.elim

theorem follow_quiet (a : Annals) (i : Interleaving τ) (quiet : e.Quiet) :
    a.follow i (.event e) = a.seen i.session e := by
  cases e with
  | act action =>
    cases action with
    | create | mutate => exact quiet.elim
    | _ => rfl
  | _ => rfl

/-- A creation is taken down. -/
theorem recorded_create (hd : i.session.database.Wired) (hf : i.session.database.holdings.Filed)
    (hr : Recorded a i.Waiting none i.session.database.holdings) (id : ObjectId) {name : String}
    (hname : Codec.Fits name) :
    Recorded (a.follow i (.event (.act (.create id name)))) i.Waiting none
        (i.session.database.create id name).2.holdings ∧
      ∀ k, a.stored k ≤ (a.follow i (.event (.act (.create id name)))).stored k := by
  obtain ⟨result, hresult, hbrought, -⟩ := Database.create_brought hd id name
  obtain ⟨hw, hcomes, c, hc, hcontent, -⟩ := hbrought.writes hf
  have hobserved := hr.observe hf hw hcomes
  have hle := hr.stored_le_observe hf hw
  cases result with
  | error e =>
    have hfollow : a.follow i (.event (.act (.create id name))) =
        a.seen i.session (.act (.create id name)) := by
      simp only [Annals.follow, hresult, Except.mapError]
    rw [hfollow]
    refine ⟨hobserved.settle hr.not_waiting_fresh fun b _ hentry => ?_, hle⟩
    exact absurd rfl (hf.ne_fresh (hbrought.entry_eq_of_error ▸ hentry))
  | ok h =>
    have hfollow : a.follow i (.event (.act (.create id name))) =
        (a.seen i.session (.act (.create id name))).append h { id, name } := by
      simp only [Annals.follow, hresult, Except.mapError]
    have hcached := hbrought.entry_eq
    obtain rfl := hbrought.eq_fresh
    rw [hfollow]
    refine ⟨?_, hle⟩
    have happended := hobserved.append hc (hcontent ▸ hcached)
      (hcontent ▸ Record.fits_new id hname)
    rwa [hcontent] at happended

/-- A change of a cached collection is taken down. -/
theorem recorded_mutate (hf : i.session.database.holdings.Filed)
    (hr : Recorded a i.Waiting none i.session.database.holdings) {h : Handle} {m : Mutation}
    (admitted : i.Admits (.event (.act (.mutate h m)))) :
    Recorded (a.follow i (.event (.act (.mutate h m)))) i.Waiting none
        (i.session.database.modify h m.apply).holdings ∧
      ∀ k, a.stored k ≤ (a.follow i (.event (.act (.mutate h m)))).stored k := by
  obtain ⟨⟨id, hentry⟩, hfits⟩ := admitted
  obtain ⟨c, hc, rfl⟩ := hf id h hentry
  have hfollow : a.follow i (.event (.act (.mutate h m))) = a.append h (m.apply c).content := by
    have hloaded : i.session.database.collection? h = some c := hc
    simp only [Annals.follow, hloaded]
  have hid : (m.apply c).content.id = c.content.id := congrArg Prod.snd (m.tag_apply c)
  have hafter : (i.session.database.holdings.alter h m.apply).pool.get? h = some (m.apply c) := by
    rw [get?_alter, if_pos rfl, hc]
    rfl
  rw [hfollow]
  exact ⟨(hr.alter h m.apply).append hafter (hid.symm ▸ hentry) (hfits c hc),
    fun _ => Nat.le_refl _⟩

/-- **Every event is taken down**, and puts no older state in the place of a newer one. -/
theorem recorded_event (hd : i.session.database.Wired) (hf : i.session.database.holdings.Filed)
    (hr : Recorded a i.Waiting none i.session.database.holdings) (admitted : i.Admits (.event e)) :
    Recorded (a.follow i (.event e)) i.Waiting none (i.session.advance e).database.holdings ∧
      ∀ id, a.stored id ≤ (a.follow i (.event e)).stored id := by
  have hquiet (quiet : e.Quiet) :
      Recorded (a.follow i (.event e)) i.Waiting none (i.session.advance e).database.holdings ∧
        ∀ id, a.stored id ≤ (a.follow i (.event e)).stored id := by
    have hs := shifts_advance hd hf quiet
    rw [follow_quiet a i quiet]
    exact ⟨hr.shifts hf hs, hr.stored_le_observe hf hs.writes⟩
  cases e with
  | act action =>
    cases action with
    | create id name => exact recorded_create hd hf hr id admitted
    | mutate h m => exact recorded_mutate hf hr admitted
    | flushDirty => exact admitted.elim
    | _ => exact hquiet trivial
  | flush h => exact admitted.elim
  | _ => exact hquiet trivial

theorem waiting_next {n : Nat} {h : Handle} (hnext : i.next? n = some h) : i.Waiting h := by
  obtain ⟨hs, hn, hhead⟩ := Option.bind_eq_some_iff.1 hnext
  exact ⟨hs, List.mem_of_getElem? hn, List.mem_of_head? hhead⟩

theorem waiting_of_step {n : Nat} {k : Handle} (hk : (i.advance (.step n)).Waiting k) :
    i.Waiting k := by
  cases hnext : i.next? n with
  | none => rwa [step_of_done hnext] at hk
  | some h =>
    rw [step_of_next hnext] at hk
    obtain ⟨hs, hmem, hin⟩ := hk
    obtain ⟨j, hj⟩ := List.mem_iff_getElem?.1 hmem
    rw [List.getElem?_modify] at hj
    obtain ⟨hs', hj', rfl⟩ := Option.map_eq_some_iff.1 hj
    refine ⟨hs', List.mem_of_getElem? hj', ?_⟩
    by_cases hjn : n = j
    · rw [if_pos hjn] at hin
      exact List.mem_of_mem_tail hin
    · rwa [if_neg hjn] at hin

/-- The turn of a flush comes to writing an instance. -/
structure Flushes (i : Interleaving τ) (n : Nat) (h : Handle) (c : Collection) : Prop where
  next : i.next? n = some h
  loaded : i.session.database.collection? h = some c
  written : (i.session.database.flushOne h).1 = true

theorem follow_step (a : Annals) (i : Interleaving τ) (n : Nat) :
    (a.follow i (.step n) = a ∧ ∀ h c, ¬i.Flushes n h c) ∨
      ∃ h c, i.Flushes n h c ∧ a.follow i (.step n) = a.write c.content.id h := by
  cases hnext : i.next? n with
  | none =>
    refine Or.inl ⟨by simp only [Annals.follow, hnext], fun h c hflushes => ?_⟩
    rw [hflushes.next] at hnext
    cases hnext
  | some h =>
    have hsame {k : Handle} {c : Collection} (hflushes : i.Flushes n k c) : k = h :=
      Option.some.inj (hflushes.next.symm.trans hnext)
    cases hloaded : i.session.database.collection? h with
    | none =>
      refine Or.inl ⟨by simp only [Annals.follow, hnext, hloaded], fun k c hflushes => ?_⟩
      have hk := hflushes.loaded
      rw [hsame hflushes, hloaded] at hk
      cases hk
    | some c =>
      cases hresult : (i.session.database.flushOne h).1 with
      | true =>
        exact Or.inr ⟨h, c, ⟨hnext, hloaded, hresult⟩,
          by simp only [Annals.follow, hnext, hloaded, hresult, ite_true]⟩
      | false =>
        refine Or.inl ⟨by simp [Annals.follow, hnext, hloaded, hresult], fun k b hflushes => ?_⟩
        have hk := hflushes.written
        rw [hsame hflushes, hresult] at hk
        cases hk

/-- **Every turn of a flush is taken down.** -/
theorem recorded_step (hr : Recorded a i.Waiting none i.session.database.holdings) (n : Nat) :
    Recorded (a.follow i (.step n)) (i.advance (.step n)).Waiting none
      (i.advance (.step n)).session.database.holdings := by
  have hkept : Recorded (a.follow i (.step n)) i.Waiting none
      (i.advance (.step n)).session.database.holdings := by
    cases hnext : i.next? n with
    | none =>
      have hfollow : a.follow i (.step n) = a := by simp only [Annals.follow, hnext]
      rw [step_of_done hnext, hfollow]
      exact hr
    | some h =>
      have hwaiting := waiting_next hnext
      have hfollow {c : Collection} (hc : i.session.database.collection? h = some c) :
          a.follow i (.step n) =
            if (i.session.database.flushOne h).1 then a.write c.content.id h else a := by
        simp only [Annals.follow, hnext, hc]
      rw [step_of_next hnext]
      show Recorded _ _ _ (i.session.database.flushOne h).2.holdings
      rcases (i.session.database.flushOne_cases h).2 with
        ⟨hresult, hsame⟩ | ⟨c, hc, ⟨hresult, hmarked⟩ | ⟨s, hwrite, hresult, hwritten⟩⟩
      · obtain ⟨c, hc⟩ := hr.present h hwaiting
        rw [hfollow hc, hresult, hsame]
        exact hr
      · rw [hfollow hc, hresult, hmarked]
        exact hr.remark hwaiting hc true
      · rw [hfollow hc, hresult, hwritten]
        have hclean : (i.session.database.holdings.pool.set h (c.setDirty false)).get? h =
            some (c.setDirty false) := (Pool.get?_set_of_some hc _ h).trans (if_pos rfl)
        exact (hr.remark hwaiting hc false).write (c := c.setDirty false) hwaiting hclean
          ((Store.write_congr _ rfl).trans hwrite)
  exact hkept.wait fun k hk => Or.inl (waiting_of_step hk)

theorem mem_dirtyHandles {d : Database} {h : Handle} (hf : d.holdings.Filed)
    (hmem : h ∈ d.dirtyHandles) :
    ∃ c, d.holdings.pool.get? h = some c ∧ d.holdings.entry c.content.id = some h ∧
      c.dirty = true := by
  obtain ⟨hcached, hdirty⟩ := List.mem_filter.1 hmem
  obtain ⟨id, -, hentry⟩ := List.mem_filterMap.1 hcached
  obtain ⟨c, hc, rfl⟩ := hf id h hentry
  have hmarked : d.holdings.marked h = true := hdirty
  exact ⟨c, hc, hentry, (marked_of_get? hc).symm.trans hmarked⟩

/-- **Every turn is taken down.** -/
theorem recorded_advance (hd : i.session.database.Wired)
    (hf : i.session.database.holdings.Filed)
    (hr : Recorded a i.Waiting none i.session.database.holdings) {t : Turn}
    (admitted : i.Admits t) :
    Recorded (a.follow i t) (i.advance t).Waiting none
      (i.advance t).session.database.holdings := by
  cases t with
  | event e => exact (recorded_event hd hf hr admitted).1
  | snapshot =>
    refine hr.wait fun h ⟨hs, hmem, hin⟩ => ?_
    rcases List.mem_append.1 hmem with hold | hnew
    · exact Or.inl ⟨hs, hold, hin⟩
    · obtain rfl := List.mem_singleton.1 hnew
      exact Or.inr (mem_dirtyHandles hf hin)
  | step n => exact recorded_step hr n

end
end Interleaving

section
variable {τ : Type} {settings : Settings} {store : Store} {i : Interleaving τ} {a : Annals}

theorem recorded_start {d : Database} (hstore : store.Sorted)
    (fresh : Database.new settings store = .ok d) :
    Recorded (.start store) (Interleaving.Waiting (τ := τ) { session := { database := d } }) none
      d.holdings := by
  have hnobody (h : Handle) :
      ¬Interleaving.Waiting (τ := τ) { session := { database := d } } h := by
    rintro ⟨hs, hmem, -⟩
    cases hmem
  rw [(Database.new_ok fresh).2]
  refine ⟨fun _ _ => rfl, fun id r hhas => ?_, fun h hh => absurd hh (hnobody h),
    fun h c _ _ hlive => ?_, fun h c _ _ hentry => by cases hentry⟩
  · obtain ⟨block, hraw, hread⟩ := hhas
    have hraw' : store.raw? id = some block := hraw
    have hstates : (Annals.start store).states id = [r] := by
      simp [Annals.start, Store.contents, hraw', hread, Except.toOption]
    refine ⟨?_, hstore id block r hraw hread⟩
    rw [hstates]
    rfl
  · rcases hlive with hh | hentry
    · exact absurd hh (hnobody h)
    · cases hentry

theorem Annotated.reached (run : Annotated settings store i a) :
    Database.Reached τ i.session.database ∧ i.session.database.Wired := by
  induction run with
  | start fresh => exact ⟨.new fresh, (Database.new_ok fresh).1⟩
  | @turn i a before t admitted ih =>
    cases t with
    | event e => exact ⟨ih.1.advance e, Session.wired_advance ih.2 e⟩
    | snapshot => exact ih
    | step n =>
      cases hnext : i.next? n with
      | none =>
        rw [Interleaving.step_of_done hnext]
        exact ih
      | some h =>
        rw [Interleaving.step_of_next hnext]
        exact ⟨ih.1.advance (.flush h), Session.wired_advance ih.2 (.flush h)⟩

theorem Annotated.recorded (run : Annotated settings store i a) (hstore : store.Sorted) :
    Recorded a i.Waiting none i.session.database.holdings := by
  induction run with
  | start fresh => exact recorded_start hstore fresh
  | turn before t admitted ih =>
    obtain ⟨hreached, hd⟩ := before.reached
    exact Interleaving.recorded_advance hd hreached.filing.holdings_filed ih admitted

/-- **What was noted and is still cached** is in the newest state when it is written. -/
theorem Annotated.newest_of_flushes (run : Annotated settings store i a) (hstore : store.Sorted)
    {n : Nat} {h : Handle} {c : Collection} (hflushes : i.Flushes n h c)
    (hentry : i.session.database.cache.base.entries.get? c.content.id = some h) :
    a.version h + 1 = (a.states c.content.id).length :=
  (run.recorded hstore).newest h c nofun hflushes.loaded hentry
    (Or.inl (Interleaving.waiting_next hflushes.next))

/-- **A flush is overtaken**: the instance that it writes next has left the cache, and the store has
a newer state of the collection. -/
def Interleaving.Overtaken (i : Interleaving τ) (a : Annals) (n : Nat) (id : ObjectId) : Prop :=
  ∃ h c, i.Flushes n h c ∧ c.content.id = id ∧
    i.session.database.cache.base.entries.get? id ≠ some h ∧ a.version h < a.stored id

/-- **What is stored is a state of the collection**, and an older state takes the place of a newer
one exactly where a flush is overtaken. -/
theorem Annotated.overwrites_iff (run : Annotated settings store i a) (hstore : store.Sorted)
    {t : Turn} (admitted : i.Admits t) (id : ObjectId) :
    (∀ r, i.session.database.store.Has id r → (a.states id)[a.stored id]? = some r) ∧
    ((a.follow i t).stored id < a.stored id ↔ ∃ n, t = .step n ∧ i.Overtaken a n id) := by
  obtain ⟨hreached, hd⟩ := run.reached
  have hf := hreached.filing.holdings_filed
  have hr := run.recorded hstore
  refine ⟨fun r hhas => (hr.stored id r hhas).1, fun hless => ?_, ?_⟩
  · cases t with
    | event e =>
      have hle := (Interleaving.recorded_event hd hf hr admitted).2 id
      omega
    | snapshot => exact absurd hless (Nat.lt_irrefl _)
    | step n =>
      rcases Interleaving.follow_step a i n with ⟨hsame, -⟩ | ⟨h, c, hflushes, hwrite⟩
      · rw [hsame] at hless
        exact absurd hless (Nat.lt_irrefl _)
      · rw [hwrite] at hless
        obtain rfl : id = c.content.id := by
          by_contra hne
          rw [a.stored_write_of_ne hne] at hless
          exact Nat.lt_irrefl _ hless
        rw [a.stored_write_self] at hless
        refine ⟨n, rfl, h, c, hflushes, rfl, fun hentry => ?_, hless⟩
        have hle := hr.stored_le (run.newest_of_flushes hstore hflushes hentry)
        omega
  · rintro ⟨n, rfl, h, c, hflushes, rfl, -, hless⟩
    rcases Interleaving.follow_step a i n with ⟨-, hnone⟩ | ⟨h', c', hflushes', hwrite⟩
    · exact absurd hflushes (hnone h c)
    · obtain rfl := Option.some.inj (hflushes.next.symm.trans hflushes'.next)
      obtain rfl := Option.some.inj (hflushes.loaded.symm.trans hflushes'.loaded)
      rw [hwrite, a.stored_write_self]
      exact hless

end

namespace Session

/-- A collection that is changed after it was noted is written as it is then. -/
theorem flush_writes_newest :
    let i : Interleaving Unit :=
      [.event (.act (.create 1 "/db")), .snapshot,
        .event (.act (.mutate 0 (.addChild "system")))].foldl Interleaving.advance
        { session := { database := narrowDatabase } }
    ∃ a, Annotated narrow {} i a ∧ ¬(a.follow i (.step 0)).stored 1 < a.stored 1 ∧
      (i.advance (.step 0)).session.database.store.load 1 none =
        .ok (some (Collection.ofRecord { id := 1, name := "/db", children := ["system"] } none)) := by
  intro i
  have hname : Codec.Fits "/db" := by decide
  have created : Annotated (τ := Unit) narrow {} _ _ :=
    (Annotated.start new_narrow).turn (.event (.act (.create 1 "/db"))) hname
  have noted := created.turn .snapshot trivial
  have run := noted.turn (.event (.act (.mutate 0 (.addChild "system"))))
    (Interleaving.admits_mutate 1 (by decide +kernel) (by decide +kernel))
  have hcached : i.session.database.cache.base.entries.get? 1 = some 0 := by decide +kernel
  have hnext : i.next? 0 = some 0 := by decide +kernel
  refine ⟨_, run, fun hless => ?_, by decide +kernel⟩
  have hstore : Store.Sorted {} := fun _ _ _ h => by cases h
  obtain ⟨n, hn, h, c, hflushes, -, hgone, -⟩ :=
    (run.overwrites_iff hstore (t := .step 0) trivial 1).2.1 hless
  obtain rfl : 0 = n := Turn.step.inj hn
  obtain rfl : 0 = h := Option.some.inj (hnext.symm.trans hflushes.next)
  exact hgone hcached

/-- **A flush that is overtaken writes an older state over a newer one.**  A collection is noted,
then it is evicted, which stores it; it is opened again, changed, and stored by a second flush; and
then the first flush stores it as it was. -/
theorem flush_overwrites_newer :
    let i : Interleaving Unit :=
      [.event (.act (.create 1 "/db")), .snapshot, .event (.act (.release 0)),
        .event (.act .evict), .event (.act (.openById 1)),
        .event (.act (.mutate 1 (.addChild "system"))), .snapshot, .step 1].foldl
        Interleaving.advance { session := { database := narrowDatabase } }
    (∃ a, Annotated narrow {} i a ∧ (a.follow i (.step 0)).stored 1 < a.stored 1) ∧
      i.session.database.store.load 1 none =
        .ok (some (Collection.ofRecord { id := 1, name := "/db", children := ["system"] } none)) ∧
      (i.advance (.step 0)).session.database.store.load 1 none =
        .ok (some (Collection.ofRecord { id := 1, name := "/db" } none)) := by
  intro i
  have hname : Codec.Fits "/db" := by decide
  have created : Annotated (τ := Unit) narrow {} _ _ :=
    (Annotated.start new_narrow).turn (.event (.act (.create 1 "/db"))) hname
  have evicted := ((created.turn .snapshot trivial).turn (.event (.act (.release 0))) trivial).turn
    (.event (.act .evict)) trivial
  have opened := evicted.turn (.event (.act (.openById 1))) trivial
  have changed := opened.turn (.event (.act (.mutate 1 (.addChild "system"))))
    (Interleaving.admits_mutate 1 (by decide +kernel) (by decide +kernel))
  have run := (changed.turn .snapshot trivial).turn (.step 1) trivial
  exact ⟨⟨_, run, by decide +kernel⟩, by decide +kernel, by decide +kernel⟩

end Session
end Folio
