import Folio.Proofs.Database.Handles
import Folio.Proofs.Database.Writes

/-! # Annals of a database

The `Annals` keep all states that each collection has been in, and which of them its instances in
memory and the store have.  They tell the truth (`Recorded`) if what is stored and what an instance
has is a state that they tell, and if what is cached and dirty is in the newest state; this is kept
by everything that is taken down.  Instances that somebody waits to write are told of as well,
though they may have left the cache.
-/
namespace Folio

open Cache (Handle Instance Pool)
open Holdings

/-! ## Annals -/

/-- What has become of collections so far. -/
structure Annals where
  /-- The states that a collection has been in, the oldest first. -/
  states : ObjectId → List Record
  /-- The number of the state that an instance is in. -/
  version : Handle → Nat
  /-- The number of the state that is stored. -/
  stored : ObjectId → Nat

namespace Annals

/-- The records that are stored at first are the first states. -/
def start (store : Store) : Annals where
  states id := (store.contents id).toList
  version _ := 0
  stored _ := 0

/-- Takes down what was written and read between two moments: a cached instance that was marked and
is not any more was written, and a new instance was read. -/
def observe (a : Annals) (H H' : Holdings) : Annals :=
  { a with
    version := fun h =>
      if h = H.fresh then (H'.pool.get? h).elim 0 fun c => a.stored c.content.id else a.version h
    stored := fun id =>
      match H.entry id with
      | some h => if H.marked h && !H'.marked h then a.version h else a.stored id
      | none => a.stored id }

/-- An instance has got a new state. -/
def append (a : Annals) (h : Handle) (r : Record) : Annals :=
  { a with
    states := Function.update a.states r.id (a.states r.id ++ [r])
    version := Function.update a.version h (a.states r.id).length }

/-- An instance was written under an identity. -/
def write (a : Annals) (id : ObjectId) (h : Handle) : Annals :=
  { a with stored := Function.update a.stored id (a.version h) }

section
variable (a : Annals) (h : Handle) (r : Record)

theorem version_append_self : (a.append h r).version h = (a.states r.id).length :=
  Function.update_self ..

theorem version_append_of_ne {k : Handle} (hne : k ≠ h) :
    (a.append h r).version k = a.version k := Function.update_of_ne hne ..

theorem states_append_self : (a.append h r).states r.id = a.states r.id ++ [r] :=
  Function.update_self ..

theorem states_append_of_ne {id : ObjectId} (hne : id ≠ r.id) :
    (a.append h r).states id = a.states id := Function.update_of_ne hne ..

/-- What the annals have told they tell for ever. -/
theorem states_append {a : Annals} {r' : Record} {id : ObjectId} {n : Nat}
    (hstate : (a.states id)[n]? = some r') : ((a.append h r).states id)[n]? = some r' := by
  by_cases hid : id = r.id
  · subst hid
    rw [states_append_self]
    exact List.getElem?_append_left (List.getElem?_eq_some_iff.1 hstate).1 ▸ hstate
  · rwa [a.states_append_of_ne h r hid]

end

theorem stored_write_self (a : Annals) (id : ObjectId) (h : Handle) :
    (a.write id h).stored id = a.version h := Function.update_self ..

theorem stored_write_of_ne (a : Annals) {id k : ObjectId} (hne : k ≠ id) (h : Handle) :
    (a.write id h).stored k = a.stored k := Function.update_of_ne hne ..

end Annals

/-! ## What the annals tell -/

/-- **The annals tell the truth** of all instances that are cached or waiting, but for a young one
that they do not know yet: what is stored and what an instance has in memory are states that the
annals tell, and the state of a cached instance is the newest if it is dirty or waiting. -/
structure Recorded (a : Annals) (waiting : Handle → Prop) (young : Option Handle) (H : Holdings) :
    Prop where
  first : ∀ id, (∀ r, ¬H.store.Has id r) → a.stored id = 0
  stored : ∀ id r, H.store.Has id r → (a.states id)[a.stored id]? = some r ∧ r.id = id
  present : ∀ h, waiting h → ∃ c, H.pool.get? h = some c
  live : ∀ h c, young ≠ some h → H.pool.get? h = some c →
    (waiting h ∨ H.entry c.content.id = some h) →
      (a.states c.content.id)[a.version h]? = some c.content ∧ c.content.Fits
  newest : ∀ h c, young ≠ some h → H.pool.get? h = some c → H.entry c.content.id = some h →
    (waiting h ∨ c.dirty = true) → a.version h + 1 = (a.states c.content.id).length

section
variable {a : Annals} {waiting waiting' : Handle → Prop} {young : Option Handle}
  {H H' : Holdings} {h : Handle} {c : Collection} {id : ObjectId}

/-- What is stored is no newer than the newest. -/
theorem Recorded.stored_le (hr : Recorded a waiting young H)
    (hnewest : a.version h + 1 = (a.states id).length) : a.stored id ≤ a.version h := by
  by_cases hany : ∃ r, H.store.Has id r
  · obtain ⟨r, hhas⟩ := hany
    have hlt := (List.getElem?_eq_some_iff.1 (hr.stored id r hhas).1).1
    omega
  · rw [hr.first id fun r hhas => hany ⟨r, hhas⟩]
    exact Nat.zero_le _

theorem Annals.stored_of_untouched (hf : H.Filed) (hu : Untouched H H' id) :
    (a.observe H H').stored id = a.stored id := by
  show (match H.entry id with
    | some h => if H.marked h && !H'.marked h then a.version h else a.stored id
    | none => a.stored id) = a.stored id
  cases hentry : H.entry id with
  | none => rfl
  | some h =>
    obtain ⟨c, hc, hid⟩ := hf id h hentry
    have hsame : H'.marked h = H.marked h := (hu.marks h c hc hid).trans (marked_of_get? hc).symm
    simp [hsame]

theorem Annals.stored_of_writtenBack (hb : WrittenBack H H' id h c) :
    (a.observe H H').stored id = a.version h := by
  have hmarked : H.marked h = true := (marked_of_get? hb.loaded).trans hb.changed
  simp [observe, hb.entry, hmarked, hb.clean]

/-- Clients other than flushes put no older state in the place of a newer one. -/
theorem Recorded.stored_le_observe (hr : Recorded a waiting none H) (hf : H.Filed)
    (hw : Writes none H H') (id : ObjectId) : a.stored id ≤ (a.observe H H').stored id := by
  rcases hw.stored id with hsame | ⟨-, h, c, hback⟩
  · exact Nat.le_of_eq (Annals.stored_of_untouched hf hsame).symm
  · obtain rfl := hback.identity hf
    rw [Annals.stored_of_writtenBack hback]
    exact hr.stored_le (hr.newest h c nofun hback.loaded hback.entry (Or.inr hback.changed))

/-! ## What is taken down -/

/-- What is written back is a state that the annals tell, and can be read. -/
theorem Recorded.writtenBack (hr : Recorded a waiting none H) (hf : H.Filed)
    (hback : WrittenBack H H' id h c) :
    (a.states id)[a.version h]? = some c.content ∧ c.content.id = id ∧
      H'.store.Has id c.content := by
  obtain rfl := hback.identity hf
  obtain ⟨hstate, hfits⟩ := hr.live h c nofun hback.loaded (Or.inr hback.entry)
  exact ⟨hstate, rfl, _, hback.raw, Record.ofBytes_encode hfits⟩

/-- **Instances that are written back** are taken down; the annals do not know yet who came. -/
theorem Recorded.observe (hr : Recorded a waiting none H) (hf : H.Filed) (hw : Writes none H H')
    (hcomes : ∀ k h, H'.entry k = some h → H.entry k = some h ∨ h = H.fresh) :
    Recorded (a.observe H H') waiting (some H.fresh) H' := by
  have hversion {h : Handle} (hold : some H.fresh ≠ some h) :
      (a.observe H H').version h = a.version h :=
    if_neg fun heq => hold (congrArg some heq.symm)
  have hplace {k : ObjectId} {h : Handle} (hold : some H.fresh ≠ some h)
      (hentry : H'.entry k = some h) : H.entry k = some h :=
    (hcomes k h hentry).resolve_right fun heq => hold (congrArg some heq.symm)
  -- who is not young was there before, with the same record
  have hbefore {h : Handle} {c' : Collection} (hold : some H.fresh ≠ some h)
      (hc' : H'.pool.get? h = some c') (hknown : waiting h ∨ H'.entry c'.content.id = some h) :
      ∃ c, H.pool.get? h = some c ∧ c'.content = c.content ∧
        (c'.dirty = true → c.dirty = true) := by
    have hthere : ∃ c, H.pool.get? h = some c := by
      rcases hknown with hwaiting | hentry
      · exact hr.present h hwaiting
      · obtain ⟨c, hc, -⟩ := hf _ _ (hplace hold hentry)
        exact ⟨c, hc⟩
    obtain ⟨c, hc⟩ := hthere
    exact ⟨c, hc, hw.same hc hc'⟩
  refine ⟨fun id hnone => ?_, fun id r hhas => ?_, fun h hh => ?_,
    fun h c' hold hc' hknown => ?_, fun h c' hold hc' hentry hneeds => ?_⟩
  · rcases hw.stored id with hsame | ⟨-, h, c, hback⟩
    · rw [Annals.stored_of_untouched hf hsame]
      exact hr.first id fun r hhas => hnone r (Store.has_congr hsame.raw hhas)
    · exact absurd (hr.writtenBack hf hback).2.2 (hnone _)
  · rcases hw.stored id with hsame | ⟨-, h, c, hback⟩
    · rw [Annals.stored_of_untouched hf hsame]
      exact hr.stored id r (Store.has_congr hsame.raw.symm hhas)
    · obtain ⟨hstate, hid, hwritten⟩ := hr.writtenBack hf hback
      rw [Annals.stored_of_writtenBack hback, hhas.unique hwritten]
      exact ⟨hstate, hid⟩
  · obtain ⟨c, hc⟩ := hr.present h hh
    obtain ⟨c', hc', -⟩ := hw.kept h c hc
    exact ⟨c', hc'⟩
  · obtain ⟨c, hc, hcontent, -⟩ := hbefore hold hc' hknown
    rw [hversion hold, hcontent]
    refine hr.live h c nofun hc (hknown.imp_right fun hentry => ?_)
    exact hcontent ▸ hplace hold hentry
  · obtain ⟨c, hc, hcontent, hmark⟩ := hbefore hold hc' (Or.inr hentry)
    rw [hversion hold, hcontent]
    exact hr.newest h c nofun hc (hcontent ▸ hplace hold hentry) (hneeds.imp_right hmark)

/-- The annals know the young instance too if it is not cached, or clean and in the state they
tell. -/
theorem Recorded.settle (hr : Recorded a waiting (some h) H) (hnew : ¬waiting h)
    (hknown : ∀ c, H.pool.get? h = some c → H.entry c.content.id = some h → c.dirty = false ∧
      (a.states c.content.id)[a.version h]? = some c.content ∧ c.content.Fits) :
    Recorded a waiting none H := by
  refine ⟨hr.first, hr.stored, hr.present, fun k c _ hc hlive => ?_,
    fun k c _ hc hentry hneeds => ?_⟩
  · by_cases hk : h = k
    · subst hk
      exact (hknown c hc (hlive.resolve_left hnew)).2
    · exact hr.live k c (fun heq => hk (Option.some.inj heq)) hc hlive
  · by_cases hk : h = k
    · subst hk
      rcases hneeds with hwaiting | hdirty
      · exact absurd hwaiting hnew
      · rw [(hknown c hc hentry).1] at hdirty
        cases hdirty
    · exact hr.newest k c (fun heq => hk (Option.some.inj heq)) hc hentry hneeds

theorem Recorded.not_waiting_fresh (hr : Recorded a waiting young H) : ¬waiting H.fresh := by
  intro hwaiting
  obtain ⟨c, hc⟩ := hr.present _ hwaiting
  rw [get?_fresh] at hc
  cases hc

/-- **What changes no record**: the instance that has come is in the state that is stored. -/
theorem Recorded.shifts (hr : Recorded a waiting none H) (hf : H.Filed) (hs : Shifts H H') :
    Recorded (a.observe H H') waiting none H' := by
  have hobserved := hr.observe hf hs.writes fun k h hentry => (hs.comes k h hentry).imp_right (·.1)
  refine hobserved.settle hr.not_waiting_fresh fun c hc hentry => ?_
  rcases hs.comes _ _ hentry with hold | ⟨-, c', hc', hclean, id, hhas⟩
  · exact absurd rfl (hf.ne_fresh hold)
  · obtain rfl := Option.some.inj (hc.symm.trans hc')
    obtain ⟨hstate, rfl⟩ := hr.stored id c.content hhas
    have hversion : (a.observe H H').version H.fresh = a.stored c.content.id := by
      refine (if_pos rfl).trans ?_
      rw [hc]
      rfl
    obtain ⟨block, -, hread⟩ := hhas
    refine ⟨hclean, ?_, Record.fits_of_ofBytes hread⟩
    rw [hversion]
    exact hstate

/-- **A new state** is the newest. -/
theorem Recorded.append (hr : Recorded a waiting (some h) H) (hc : H.pool.get? h = some c)
    (hentry : H.entry c.content.id = some h) (hfits : c.content.Fits) :
    Recorded (a.append h c.content) waiting none H := by
  refine ⟨hr.first, fun id r hhas => ?_, hr.present, fun k b _ hb hlive => ?_,
    fun k b _ hb hcached hneeds => ?_⟩
  · obtain ⟨hstate, hid⟩ := hr.stored id r hhas
    exact ⟨Annals.states_append h _ hstate, hid⟩
  · by_cases hk : h = k
    · subst hk
      obtain rfl := Option.some.inj (hb.symm.trans hc)
      rw [a.version_append_self, a.states_append_self]
      exact ⟨List.getElem?_concat_length, hfits⟩
    · rw [a.version_append_of_ne h _ (Ne.symm hk)]
      obtain ⟨hstate, hfits⟩ := hr.live k b (fun heq => hk (Option.some.inj heq)) hb hlive
      exact ⟨Annals.states_append h _ hstate, hfits⟩
  · by_cases hk : h = k
    · subst hk
      obtain rfl := Option.some.inj (hb.symm.trans hc)
      rw [a.version_append_self, a.states_append_self, List.length_append, List.length_singleton]
    · have hid : b.content.id ≠ c.content.id := by
        intro heq
        rw [heq, hentry] at hcached
        exact hk (Option.some.inj hcached)
      rw [a.version_append_of_ne h _ (Ne.symm hk), a.states_append_of_ne h _ hid]
      exact hr.newest k b (fun heq => hk (Option.some.inj heq)) hb hcached hneeds

/-- A change of one instance is taken down of nobody else. -/
theorem Recorded.alter (hr : Recorded a waiting none H) (h : Handle) (f : Collection → Collection) :
    Recorded a waiting (some h) (H.alter h f) := by
  have hget {k : Handle} {c : Collection} (hold : some h ≠ some k)
      (hc : (H.alter h f).pool.get? k = some c) : H.pool.get? k = some c := by
    rw [get?_alter, if_neg fun heq => hold (congrArg some heq)] at hc
    exact hc
  refine ⟨hr.first, hr.stored, fun k hk => ?_, fun k c hold hc => hr.live k c nofun (hget hold hc),
    fun k c hold hc => hr.newest k c nofun (hget hold hc)⟩
  obtain ⟨c, hc⟩ := hr.present k hk
  rw [get?_alter, hc]
  split
  · exact ⟨f c, rfl⟩
  · exact ⟨c, rfl⟩

/-- **An instance that waits** may be marked or not. -/
theorem Recorded.remark (hr : Recorded a waiting none H) (hwaiting : waiting h)
    (hc : H.pool.get? h = some c) (dirty : Bool) :
    Recorded a waiting none { H with pool := H.pool.set h (c.setDirty dirty) } := by
  have hget := Pool.get?_set_of_some hc (c.setDirty dirty)
  refine ⟨hr.first, hr.stored, fun k hk => ?_, fun k b _ hb hlive => ?_,
    fun k b _ hb hentry hneeds => ?_⟩
  · by_cases hhk : h = k
    · exact ⟨_, (hget k).trans (if_pos hhk)⟩
    · obtain ⟨b, hb⟩ := hr.present k hk
      exact ⟨b, (hget k).trans ((if_neg hhk).trans hb)⟩
  · by_cases hk : h = k
    · subst hk
      obtain rfl := Option.some.inj (((hget h).trans (if_pos rfl)).symm.trans hb)
      exact hr.live h c nofun hc hlive
    · exact hr.live k b nofun (((hget k).trans (if_neg hk)).symm.trans hb) hlive
  · by_cases hk : h = k
    · subst hk
      obtain rfl := Option.some.inj (((hget h).trans (if_pos rfl)).symm.trans hb)
      exact hr.newest h c nofun hc hentry (Or.inl hwaiting)
    · exact hr.newest k b nofun (((hget k).trans (if_neg hk)).symm.trans hb) hentry hneeds

/-- **An instance that waits is written.** -/
theorem Recorded.write {s : Store} (hr : Recorded a waiting none H) (hwaiting : waiting h)
    (hc : H.pool.get? h = some c) (hwrite : H.store.write c = .ok s) :
    Recorded (a.write c.content.id h) waiting none { H with store := s } := by
  obtain ⟨hstate, hfits⟩ := hr.live h c nofun hc (Or.inl hwaiting)
  have hwritten := Store.has_of_write hwrite hfits
  refine ⟨fun id hnone => ?_, fun id r hhas => ?_, hr.present, hr.live, hr.newest⟩
  · by_cases hid : id = c.content.id
    · subst hid
      exact absurd hwritten (hnone _)
    · rw [a.stored_write_of_ne hid]
      exact hr.first id fun r hhas => hnone r (Store.has_congr (Store.raw?_write hwrite hid) hhas)
  · by_cases hid : id = c.content.id
    · subst hid
      rw [a.stored_write_self, Store.Has.unique hhas hwritten]
      exact ⟨hstate, rfl⟩
    · rw [a.stored_write_of_ne hid]
      exact hr.stored id r (Store.has_congr (Store.raw?_write hwrite hid).symm hhas)

/-- Instances wait no more, or cached ones that are dirty begin to wait. -/
theorem Recorded.wait (hr : Recorded a waiting none H)
    (hwaits : ∀ h, waiting' h → waiting h ∨
      ∃ c, H.pool.get? h = some c ∧ H.entry c.content.id = some h ∧ c.dirty = true) :
    Recorded a waiting' none H := by
  refine ⟨hr.first, hr.stored, fun h hh => ?_, fun h c hyoung hc hlive => ?_,
    fun h c hyoung hc hentry hneeds => ?_⟩
  · rcases hwaits h hh with hwaiting | ⟨c, hc, -⟩
    · exact hr.present h hwaiting
    · exact ⟨c, hc⟩
  · refine hr.live h c hyoung hc ?_
    rcases hlive with hh | hentry
    · rcases hwaits h hh with hwaiting | ⟨c', hc', hentry, -⟩
      · exact Or.inl hwaiting
      · obtain rfl := Option.some.inj (hc.symm.trans hc')
        exact Or.inr hentry
    · exact Or.inr hentry
  · refine hr.newest h c hyoung hc hentry ?_
    rcases hneeds with hh | hdirty
    · rcases hwaits h hh with hwaiting | ⟨c', hc', -, hdirty⟩
      · exact Or.inl hwaiting
      · obtain rfl := Option.some.inj (hc.symm.trans hc')
        exact Or.inr hdirty
    · exact Or.inr hdirty

end
end Folio
