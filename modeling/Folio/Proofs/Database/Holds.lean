import Folio.Proofs.Database.Session
import Folio.Proofs.Record.RoundTrip

/-! # Holds and places of collections

The lock of a collection lives in its instance, so what becomes of holds is decided by what
becomes of instances.  Operations on collections leave every lock alone (`Leads`), which is all
that one instance needs.  That two instances of a collection are never held at once needs
places as well: an instance that is held must stay the one that is cached.  Eviction passes over
instances that are pinned or held for writing (`Guarded`), but not over those that are only
held for reading, and a collection that is created pushes another instance out of its place.
-/
namespace Folio

open Cache (Handle Instance Pool)
open Transaction (Balanced Ticket)

/-! ## Records under their own identities -/

/-- What can be read in a store is filed under its identity. -/
def Store.Sorted (s : Store) : Prop :=
  ∀ id block r, s.raw? id = some block → Record.ofBytes block = .ok r → r.id = id

/-- A write files a record under its own identity. -/
theorem Store.Sorted.write {s s' : Store} {c : Collection} (hs : s.Sorted)
    (h : s.write c = .ok s') : s'.Sorted := by
  intro id block r hraw hread
  rw [Store.raw?, Store.write_eq h] at hraw
  rcases Table.get?_insert_cases hraw with ⟨rfl, rfl⟩ | ⟨-, hold⟩
  · exact Record.id_of_ofBytes_encode hread
  · exact hs id block r hold hread

namespace Holdings

/-- What is cached is loaded and has the identity it is cached under. -/
def Filed (H : Holdings) : Prop :=
  ∀ id h, H.entry id = some h → ∃ c, H.pool.get? h = some c ∧ c.content.id = id

/-- An instance that eviction passes over: it is pinned or held for writing. -/
def Guarded (H : Holdings) (h : Handle) : Prop :=
  ∀ c, H.pool.get? h = some c → c.refCount ≠ 0 ∨ c.lock.writer = true

/-! ## Marks of a change -/

/-- Instances differ at most in being marked as changed, and the store has been written to. -/
structure Remarked (H H' : Holdings) : Prop where
  entry : H'.entry = H.entry
  loaded : ∀ h, (H'.pool.get? h).map (·.setDirty false) = (H.pool.get? h).map (·.setDirty false)
  sorted : H.store.Sorted → H'.store.Sorted

section
variable {H H₁ H' : Holdings} {h : Handle} {c : Collection}

theorem Remarked.refl (H : Holdings) : Remarked H H := ⟨rfl, fun _ => rfl, id⟩

theorem Remarked.trans (h₁ : Remarked H H₁) (h₂ : Remarked H₁ H') : Remarked H H' :=
  ⟨h₂.entry.trans h₁.entry, fun h => (h₂.loaded h).trans (h₁.loaded h),
    fun hs => h₂.sorted (h₁.sorted hs)⟩

/-- An instance that was there is there, marked or not. -/
theorem Remarked.get? (hr : Remarked H H') (hc : H.pool.get? h = some c) :
    ∃ dirty, H'.pool.get? h = some (c.setDirty dirty) := by
  have hsame := hr.loaded h
  rw [hc] at hsame
  obtain ⟨c', hc', heq⟩ := Option.map_eq_some_iff.1 hsame
  refine ⟨c'.dirty, hc'.trans (congrArg some ?_)⟩
  calc c' = (c'.setDirty false).setDirty c'.dirty := rfl
    _ = (c.setDirty false).setDirty c'.dirty := by rw [heq]
    _ = c.setDirty c'.dirty := rfl

/-- An instance that is there was there. -/
theorem Remarked.get?_none (hr : Remarked H H') (hnone : H.pool.get? h = none) :
    H'.pool.get? h = none := by
  have hsame := hr.loaded h
  rw [hnone] at hsame
  exact Option.map_eq_none_iff.1 hsame

theorem remarked_set (hc : H.pool.get? h = some c) (dirty : Bool) {s : Store}
    (hs : H.store.Sorted → s.Sorted) :
    Remarked H { H with pool := H.pool.set h (c.setDirty dirty), store := s } := by
  refine ⟨rfl, fun k => ?_, hs⟩
  rw [Pool.get?_set]
  split
  · rename_i hk
    rw [← hk, hc]
    rfl
  · rfl

theorem Saved.remarked (hs : Saved h H H') : Remarked H H' := by
  cases hs with
  | clean => exact .refl H
  | written loaded accepted => exact remarked_set loaded false (·.write accepted)

theorem Flushed.remarked (hf : Flushed h H H') : Remarked H H' := by
  cases hf with
  | passed => exact .refl H
  | written loaded accepted => exact remarked_set loaded false (·.write accepted)
  | refused loaded => exact remarked_set loaded true id

theorem FlushedEach.remarked {hs : List Handle} (hf : FlushedEach hs H H') : Remarked H H' := by
  induction hf with
  | nil => exact .refl _
  | cons first _ ih => exact first.remarked.trans ih

end

/-! ## What an operation on collections leads to -/

/-- Two states of an instance with the same holds. -/
structure Alike (c c' : Collection) : Prop where
  identity : c'.content.id = c.content.id
  readers : c'.lock.readers = c.lock.readers
  writer : c'.lock.writer = c.lock.writer

theorem Alike.refl (c : Collection) : Alike c c := ⟨rfl, rfl, rfl⟩

theorem Alike.trans {c c₁ c' : Collection} (h₁ : Alike c c₁) (h₂ : Alike c₁ c') : Alike c c' :=
  ⟨h₂.identity.trans h₁.identity, h₂.readers.trans h₁.readers, h₂.writer.trans h₁.writer⟩

/-- **What an operation on collections leads to.**  No instance is held by more or by fewer than
before, and a new instance by nobody; and the instances in `held` keep their places. -/
structure Leads (held : Handle → Prop) (H H' : Holdings) : Prop where
  alike : ∀ h c, H.pool.get? h = some c → ∃ c', H'.pool.get? h = some c' ∧ Alike c c'
  free : ∀ h c, H.pool.get? h = none → H'.pool.get? h = some c →
    c.lock.readers = 0 ∧ c.lock.writer = false
  filed : H.Filed → H'.Filed
  sorted : H.store.Sorted → H'.store.Sorted
  stays : ∀ h id, held h → H.entry id = some h → H'.entry id = some h

section
variable {held : Handle → Prop} {H H₁ H' : Holdings} {h : Handle} {c : Collection} {id : ObjectId}

theorem filed_of_alike (hf : H.Filed)
    (halike : ∀ h c, H.pool.get? h = some c → ∃ c', H'.pool.get? h = some c' ∧ Alike c c')
    (hentry : ∀ id h, H'.entry id = some h → H.entry id = some h) : H'.Filed := by
  intro id h hcached
  obtain ⟨c, hc, hid⟩ := hf id h (hentry id h hcached)
  obtain ⟨c', hc', hsame⟩ := halike h c hc
  exact ⟨c', hc', hsame.identity.trans hid⟩

theorem Leads.refl (held : Handle → Prop) (H : Holdings) : Leads held H H where
  alike _ c hc := ⟨c, hc, .refl c⟩
  free _ _ hnone hc := by rw [hnone] at hc; cases hc
  filed := id
  sorted := id
  stays _ _ _ := id

theorem Leads.trans (h₁ : Leads held H H₁) (h₂ : Leads held H₁ H') : Leads held H H' where
  alike h c hc := by
    obtain ⟨c₁, hc₁, hsame₁⟩ := h₁.alike h c hc
    obtain ⟨c', hc', hsame⟩ := h₂.alike h c₁ hc₁
    exact ⟨c', hc', hsame₁.trans hsame⟩
  free h c' hnone hc' := by
    cases hmid : H₁.pool.get? h with
    | none => exact h₂.free h c' hmid hc'
    | some c₁ =>
      obtain ⟨c'', hc'', hsame⟩ := h₂.alike h c₁ hmid
      obtain rfl : c'' = c' := Option.some.inj (hc''.symm.trans hc')
      obtain ⟨hreaders, hwriter⟩ := h₁.free h c₁ hnone hmid
      exact ⟨hsame.readers.trans hreaders, hsame.writer.trans hwriter⟩
  filed := h₂.filed ∘ h₁.filed
  sorted := h₂.sorted ∘ h₁.sorted
  stays h id hh := h₂.stays h id hh ∘ h₁.stays h id hh

theorem Remarked.leads (hr : Remarked H H') : Leads held H H' := by
  have halike : ∀ h c, H.pool.get? h = some c → ∃ c', H'.pool.get? h = some c' ∧ Alike c c' := by
    intro h c hc
    obtain ⟨dirty, hmarked⟩ := hr.get? hc
    exact ⟨c.setDirty dirty, hmarked, rfl, rfl, rfl⟩
  refine ⟨halike, fun h c hnone hc => ?_, fun hf => ?_, hr.sorted, fun h id _ hentry => ?_⟩
  · rw [hr.get?_none hnone] at hc
    cases hc
  · exact filed_of_alike hf halike fun id h hentry => hr.entry ▸ hentry
  · rw [hr.entry]
    exact hentry

/-! ### Leaving -/

theorem Remarked.guarded (hr : Remarked H H') (hg : H.Guarded h) : H'.Guarded h := by
  intro c' hc'
  cases hc : H.pool.get? h with
  | none =>
    rw [hr.get?_none hc] at hc'
    cases hc'
  | some c =>
    obtain ⟨dirty, hmarked⟩ := hr.get? hc
    obtain rfl := Option.some.inj (hmarked.symm.trans hc')
    exact hg c hc

theorem leads_leave (hplace : ∀ k, held k → H.entry id ≠ some k) : Leads held H (H.leave id) where
  alike _ c hc := ⟨c, hc, .refl c⟩
  free := (Leads.refl held H).free
  filed hf := by
    refine filed_of_alike hf (fun _ c hc => ⟨c, hc, .refl c⟩) fun k h hentry => ?_
    have hleft : (if k = id then none else H.entry k) = some h := hentry
    split at hleft
    · cases hleft
    · exact hleft
  sorted hs := hs
  stays h k hh hentry := by
    have hk : k ≠ id := by
      rintro rfl
      exact hplace h hh hentry
    exact (if_neg hk).trans hentry

/-- **An instance that is pinned or held for writing does not leave.** -/
theorem Unload.leads {exclude : Option ObjectId} (hu : Unload exclude H H')
    (hguard : ∀ h, held h → H.Guarded h) :
    Leads held H H' ∧ ∀ h, H.Guarded h → H'.Guarded h := by
  obtain ⟨-, entry, loaded, unpinned, free, saved⟩ := hu
  have hr := saved.remarked
  refine ⟨hr.leads.trans (leads_leave fun k hk hentry => ?_), fun k hk => hr.guarded hk⟩
  rw [hr.entry, entry] at hentry
  obtain rfl := Option.some.inj hentry
  -- it is not pinned and not held for writing, since it left
  rcases hguard _ hk _ loaded with hpinned | hwritten
  · exact hpinned unpinned
  · rw [Lock.admits, hwritten] at free
    cases free

theorem Sheds.leads {exclude : Option ObjectId} (hs : Sheds exclude H H')
    (hguard : ∀ h, held h → H.Guarded h) : Leads held H H' := by
  have hboth : Leads held H H' ∧ ∀ h, H.Guarded h → H'.Guarded h := by
    induction hs with
    | refl => exact ⟨.refl held H, fun _ hg => hg⟩
    | tail _ hu ih =>
      obtain ⟨hleads, hkeeps⟩ := ih
      obtain ⟨hleads', hkeeps'⟩ := hu.leads fun h hh => hkeeps h (hguard h hh)
      exact ⟨hleads.trans hleads', fun h hg => hkeeps' h (hkeeps h hg)⟩
  exact hboth.1

/-! ### Coming -/

/-- A new instance that nobody holds comes into memory. -/
theorem leads_load (hreaders : c.lock.readers = 0) (hwriter : c.lock.writer = false) :
    Leads held H (H.load c) := by
  have halike : ∀ h b, H.pool.get? h = some b →
      ∃ b', (H.load c).pool.get? h = some b' ∧ Alike b b' := by
    intro h b hb
    exact ⟨b, get?_load_of_some hb c, .refl b⟩
  refine ⟨halike, fun h b hnone hb => ?_, fun hf => ?_, id, fun _ _ _ => id⟩
  · rw [get?_load] at hb
    split at hb
    · obtain rfl := Option.some.inj hb
      exact ⟨hreaders, hwriter⟩
    · rw [hnone] at hb
      cases hb
  · exact filed_of_alike hf halike fun _ _ => id

theorem guarded_load (hg : H.Guarded h) : (H.load c).Guarded h := by
  intro b hb
  rw [get?_load] at hb
  split at hb
  · obtain rfl := Option.some.inj hb
    exact Or.inl (by simp)
  · exact hg b hb

/-- An instance takes a place that no instance in `held` has. -/
theorem leads_enter (hloaded : H.pool.get? h = some c) (hid : c.content.id = id)
    (hplace : ∀ k, held k → H.entry id ≠ some k) : Leads held H (H.enter id h) where
  alike _ b hb := ⟨b, hb, .refl b⟩
  free := (Leads.refl held H).free
  filed hf k j hentry := by
    have hentered : (if k = id then some h else H.entry k) = some j := hentry
    split at hentered
    · rename_i hk
      obtain rfl := Option.some.inj hentered
      exact ⟨c, hloaded, hid.trans hk.symm⟩
    · exact hf k j hentered
  sorted hs := hs
  stays j k hj hentry := by
    have hk : k ≠ id := by
      rintro rfl
      exact hplace j hj hentry
    exact (if_neg hk).trans hentry

/-- **A new instance pushes at most the instance out that had its place**, if those that stay are
guarded. -/
theorem Brought.leads {result : Except Cache.Error Handle} (hb : Brought H c result H')
    (hreaders : c.lock.readers = 0) (hwriter : c.lock.writer = false)
    (hguard : ∀ h, held h → H.Guarded h) (hplace : ∀ h, held h → H.entry c.content.id ≠ some h) :
    Leads held H H' := by
  have hload : Leads held H (H.load c) := leads_load hreaders hwriter
  have hfresh := get?_load_fresh H c
  cases hb with
  | cached new sheds =>
    have henter : Leads held (H.load c) ((H.load c).enter c.content.id H.fresh) :=
      leads_enter hfresh rfl hplace
    exact (hload.trans henter).trans (sheds.leads fun h hh => guarded_load (hguard h hh))
  | rejected new e => exact hload
  | @replaced previous H₁ old saved =>
    have hr : Remarked (H.load c) H₁ := by
      rcases saved with rfl | saved
      · exact .refl _
      · exact saved.remarked
    obtain ⟨dirty, hmarked⟩ := hr.get? hfresh
    refine (hload.trans hr.leads).trans (leads_enter hmarked rfl fun k hk => ?_)
    rw [hr.entry]
    exact hplace k hk

/-- Pins and contents change, but neither the identity nor the holds. -/
theorem leads_alter (h : Handle) {f : Collection → Collection} (hf : ∀ c, Alike c (f c)) :
    Leads held H (H.alter h f) := by
  have halike : ∀ k c, H.pool.get? k = some c →
      ∃ c', (H.alter h f).pool.get? k = some c' ∧ Alike c c' := by
    intro k c hc
    simp only [alter, Pool.get?_modify, hc]
    split
    · exact ⟨f c, rfl, hf c⟩
    · exact ⟨c, rfl, .refl c⟩
  refine ⟨halike, fun k c hnone hc => ?_, fun hfiled => ?_, id, fun _ _ _ => id⟩
  · simp only [alter, Pool.get?_modify, hnone, Option.map_none, ite_self] at hc
    cases hc
  · exact filed_of_alike hfiled halike fun _ _ => id

/-- **Opening pushes no instance out of its place**, if records are stored under their own
identities: an instance is only brought in where there is none. -/
theorem Opened.leads {timeout : Option Duration} {result : Except Database.Error (Option Handle)}
    (ho : Opened H id timeout result H') (hguard : ∀ h, held h → H.Guarded h)
    (hsorted : ∀ h, held h → H.store.Sorted) : Leads held H H' := by
  cases ho with
  | cached => exact leads_alter _ fun c => ⟨rfl, rfl, rfl⟩
  | absent => exact .refl held _
  | damaged => exact .refl held _
  | @loaded block r _ _ new stored readable brought =>
    refine brought.leads rfl rfl hguard fun h hh hentry => ?_
    have hid : r.id = id := hsorted h hh id block r stored readable
    have hsome : H.entry r.id = some h := hentry
    rw [hid, new] at hsome
    cases hsome

end
end Holdings
end Folio
