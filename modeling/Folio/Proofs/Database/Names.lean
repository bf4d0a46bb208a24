import Folio.Proofs.Codec.Exactness
import Folio.Proofs.Database.Contents
import Folio.Proofs.Database.Isolation
import Folio.Proofs.Database.Opening

/-! # Opening by name

Three tables decide what a name opens: the index of the cache, the names in the store, and the
entries of the cache.  The index follows the entries at once; the store learns of a name only when
the collection is written, and of a name that was given up only when it is written again.  So a
collection that was created again under another name leaves its former name in the store, where it
is found and leads to the new one (`opens_former_name`).  `Run.opens_name_iff` says that nothing
else can go wrong, in any session over a store that was empty at first.
-/
namespace Folio

open Codec Decoder
open Cache (Handle Instance Pool Workspace)
open NamedCache (tag)
open Holdings

/-! ## The name in the bytes of a record -/

namespace Codec

variable {r r' : Reader}

/-- A text that is read off the bytes of a text is that text, which fits. -/
theorem readText_encodeText {text text' : String} {rest : Bytes}
    (hunread : r.unread = encodeText text ++ rest) (h : readText r = .ok text' r') :
    text' = text := by
  have hfits : Fits text := by
    unfold readText Decoder.ofUnread at h
    rw [hunread, encodeText, encodeBlock, List.append_assoc] at h
    unfold takeText takeBlock at h
    cases hdecode : Varint.decode (Varint.encode (Utf8.encode text).length ++
        (Utf8.encode text ++ rest)) with
    | error e =>
      rw [hdecode] at h
      cases h
    | ok number => exact Varint.lt_of_decode_encode hdecode
  rw [reads_text hfits r rest hunread] at h
  cases h
  rfl

end Codec

/-- Whatever is read off the bytes of a record has its name. -/
theorem Record.name_of_ofBytes_encode {r r' : Record} (h : ofBytes r.encode = .ok r') :
    r'.name = r.name := by
  have hfront : Varint.encode r.id.toNat ++ encodeText r.name <+: r.encode := by
    simp only [Record.encode, Header.encode, List.append_assoc, List.prefix_append_right_inj]
    exact List.prefix_append _ _
  obtain ⟨rest, hrest⟩ := hfront
  rw [List.append_assoc] at hrest
  have hunread : (Reader.ofBytes r.encode).unread =
      Varint.encode r.id.toNat ++ (encodeText r.name ++ rest) := hrest.symm
  unfold ofBytes at h
  split at h
  · rename_i r₀ reader hrun
    cases h
    obtain ⟨header, _, hheader, hentries⟩ := bind_eq_ok_iff.1 hrun
    obtain ⟨id, _, hid, hafter⟩ := bind_eq_ok_iff.1 hheader
    rw [reads_u64 r.id _ _ hunread] at hid
    cases hid
    obtain ⟨name, _, hname, hmore⟩ := bind_eq_ok_iff.1 (within_eq_ok_iff.1 hafter)
    obtain rfl := readText_encodeText (Reader.unread_advance hunread) hname
    obtain ⟨children, _, -, hlast⟩ := bind_eq_ok_iff.1 hmore
    obtain ⟨permissions, _, -, hpure⟩ := bind_eq_ok_iff.1 hlast
    cases hpure
    obtain ⟨entries, _, -, hpure⟩ := bind_eq_ok_iff.1 hentries
    cases hpure
    rfl
  · cases h

theorem Record.tag_of_ofBytes_encode {r r' : Record} (h : ofBytes r.encode = .ok r') :
    tag r' = tag r :=
  Prod.ext (name_of_ofBytes_encode h) (id_of_ofBytes_encode h)

/-! ## Names in the store -/

/-- **The store is in order**: what is filed was written from a record with a tag in `Q`, and every
name stands for an identity that it may have and under which a record of that name is filed. -/
structure Store.Entitled (Q : String × ObjectId → Prop) (s : Store) : Prop where
  filed : ∀ id block, s.raw? id = some block → ∃ r : Record, block = r.encode ∧ Q (tag r)
  named : ∀ n id, s.findByName? n = some id →
    Q (n, id) ∧ ∃ r : Record, s.raw? id = some r.encode ∧ r.name = n

section
variable {Q : String × ObjectId → Prop}

/-- **A write gives up the names that its identity had before.** -/
theorem Store.Entitled.write {s s' : Store} {c : Collection} (hs : s.Entitled Q)
    (hQ : Q (tag c.content)) (h : s.write c = .ok s') : s'.Entitled Q := by
  have hself : s'.raw? c.content.id = some c.content.encode := by
    rw [raw?, write_eq h, Table.get?_insert, if_pos rfl]
  refine ⟨fun id block hraw => ?_, fun n id hname => ?_⟩
  · by_cases hid : id = c.content.id
    · subst hid
      rw [hself] at hraw
      exact ⟨c.content, (Option.some.inj hraw).symm, hQ⟩
    · rw [raw?_write h hid] at hraw
      exact hs.filed id block hraw
  · rw [findByName?, names_write h] at hname
    rcases Table.get?_insert_cases hname with ⟨rfl, rfl⟩ | ⟨-, hkept⟩
    · exact ⟨hQ, c.content, hself, rfl⟩
    · obtain ⟨hold, hid⟩ := (Table.get?_filter_iff ..).1 hkept
      obtain ⟨hn, r, hraw, hr⟩ := hs.named n id hold
      exact ⟨hn, r, (raw?_write h (of_decide_eq_true hid)).trans hraw, hr⟩

/-- What is read has the tag of what was written. -/
theorem Store.Entitled.read {s : Store} {id : ObjectId} {block : Bytes} {r : Record}
    (hs : s.Entitled Q) (hraw : s.raw? id = some block) (hread : Record.ofBytes block = .ok r) :
    Q (tag r) := by
  obtain ⟨r₀, rfl, hQ⟩ := hs.filed id block hraw
  rwa [Record.tag_of_ofBytes_encode hread]

/-! ## Names in memory -/

namespace Holdings

/-- Every collection in memory has a tag in `Q`, and the store is in order. -/
structure Entitled (Q : String × ObjectId → Prop) (H : Holdings) : Prop where
  loaded : ∀ h c, H.pool.get? h = some c → Q (tag c.content)
  store : H.store.Entitled Q

variable {H H' : Holdings} {h : Handle} {c : Collection}

/-- Marks of a change are no part of the content. -/
theorem Remarked.contents (hr : Remarked H H')
    (he : ∀ h c, H.pool.get? h = some c → Q (tag c.content)) :
    ∀ h c, H'.pool.get? h = some c → Q (tag c.content) := by
  intro h c' hc'
  cases hc : H.pool.get? h with
  | none =>
    rw [hr.get?_none hc] at hc'
    cases hc'
  | some c =>
    obtain ⟨dirty, hmarked⟩ := hr.get? hc
    obtain rfl := Option.some.inj (hmarked.symm.trans hc')
    exact he h c hc

theorem Entitled.saved (he : Entitled Q H) (hs : Saved h H H') : Entitled Q H' := by
  refine ⟨hs.remarked.contents he.loaded, ?_⟩
  cases hs with
  | clean => exact he.store
  | written loaded accepted => exact he.store.write (he.loaded _ _ loaded) accepted

theorem Entitled.sheds {exclude : Option ObjectId} (he : Entitled Q H) (hs : Sheds exclude H H') :
    Entitled Q H' := by
  induction hs with
  | refl => exact he
  | tail _ hu ih =>
    obtain ⟨-, -, -, -, -, saved⟩ := hu
    exact ⟨(ih.saved saved).loaded, (ih.saved saved).store⟩

theorem Entitled.load (he : Entitled Q H) (hQ : Q (tag c.content)) : Entitled Q (H.load c) := by
  refine ⟨fun h b hb => ?_, he.store⟩
  rw [get?_load] at hb
  split at hb
  · obtain rfl := Option.some.inj hb
    exact hQ
  · exact he.loaded h b hb

theorem Entitled.brought {result : Except Cache.Error Handle} (he : Entitled Q H)
    (hQ : Q (tag c.content)) (hb : Brought H c result H') : Entitled Q H' := by
  have hload := he.load hQ
  cases hb with
  | cached new sheds =>
    have henter : Entitled Q ((H.load c).enter c.content.id H.fresh) := ⟨hload.loaded, hload.store⟩
    exact henter.sheds sheds
  | rejected new e => exact hload
  | replaced old saved =>
    rcases saved with rfl | saved
    · exact ⟨hload.loaded, hload.store⟩
    · exact ⟨(hload.saved saved).loaded, (hload.saved saved).store⟩

theorem Entitled.alter (he : Entitled Q H) (h : Handle) {f : Collection → Collection}
    (hf : ∀ c, tag (f c).content = tag c.content) : Entitled Q (H.alter h f) := by
  refine ⟨fun k c hc => ?_, he.store⟩
  rw [get?_alter] at hc
  split at hc
  · obtain ⟨b, hb, rfl⟩ := Option.map_eq_some_iff.1 hc
    rw [hf]
    exact he.loaded k b hb
  · exact he.loaded k c hc

theorem Entitled.opened {id : ObjectId} {timeout : Option Duration}
    {result : Except Database.Error (Option Handle)} (he : Entitled Q H)
    (ho : Opened H id timeout result H') : Entitled Q H' := by
  cases ho with
  | cached => exact he.alter _ fun _ => rfl
  | absent => exact he
  | damaged => exact he
  | loaded new stored readable brought => exact he.brought (he.store.read stored readable) brought

theorem Entitled.flushed (he : Entitled Q H) (hf : Flushed h H H') : Entitled Q H' := by
  refine ⟨hf.remarked.contents he.loaded, ?_⟩
  cases hf with
  | passed => exact he.store
  | written loaded accepted => exact he.store.write (he.loaded _ _ loaded) accepted
  | refused => exact he.store

theorem Entitled.flushedEach {hs : List Handle} (he : Entitled Q H) (hf : FlushedEach hs H H') :
    Entitled Q H' := by
  induction hf with
  | nil => exact he
  | cons first _ ih => exact ih (he.flushed first)

theorem Entitled.relocked (he : Entitled Q H) (hr : Relocked H H') : Entitled Q H' := by
  refine ⟨fun h c' hc' => ?_, hr.store ▸ he.store⟩
  have hsame := hr.loaded h
  rw [hc'] at hsame
  obtain ⟨c, hc, heq⟩ := Option.map_eq_some_iff.1 hsame.symm
  have hcontent : (c.setLock {}).content = (c'.setLock {}).content := congrArg Instance.content heq
  rw [show c'.content = c.content from hcontent.symm]
  exact he.loaded h c hc

end Holdings
/-! ## Sessions -/

namespace Session

variable {τ : Type} {s : Session τ} {settings : Settings} {store : Store}
  {allowed : Session τ → Action → Prop}

/-- **Every action leaves the names in order**, if collections are created under tags in `Q`. -/
theorem entitled_perform (hd : s.database.Wired) (he : Entitled Q s.database.holdings) {a : Action}
    (hcreate : ∀ id name, a = .create id name → Q (name, id)) :
    Entitled Q (s.perform a).database.holdings := by
  cases a with
  | create id name =>
    obtain ⟨result, -, hbrought, -⟩ := Database.create_brought hd id name
    refine he.brought ?_ hbrought
    exact hcreate id name rfl
  | openById id => exact he.opened (Database.openById_opened hd id).1
  | openByName name =>
    obtain ⟨⟨id, hopened⟩ | ⟨-, hsame⟩, -⟩ := Database.openByName_opened hd name
    · exact he.opened hopened
    · show Entitled Q (s.database.openByName name).2.holdings
      rw [hsame]
      exact he
  | release h => exact he.alter h fun c => congrArg tag c.unpin_content
  | mutate h m => exact he.alter h m.tag_apply
  | begin => exact he.relocked (s.relocked_perform (a := .begin) trivial).1
  | lock n h mode => exact he.relocked (s.relocked_perform (a := .lock n h mode) trivial).1
  | finish n how => exact he.relocked (s.relocked_perform (a := .finish n how) trivial).1
  | waiting h writers => exact he.relocked (s.relocked_perform (a := .waiting h writers) trivial).1
  | flushDirty =>
    obtain ⟨hs, -, hflushed, -⟩ := s.database.flushDirty_flushed
    exact he.flushedEach hflushed
  | evict => exact he.sheds (Database.evict_sheds hd).1
  | resize capacity => exact he.sheds (Database.resize_sheds hd capacity).1
  | setReadOnly readOnly => exact ⟨he.loaded, he.store.filed, he.store.named⟩

/-- In a session over an empty store all names are in order. -/
theorem Run.entitled (run : Run settings {} allowed s)
    (hcreate : ∀ s id name, allowed s (.create id name) → Q (name, id)) :
    Entitled Q s.database.holdings := by
  induction run with
  | start fresh =>
    rw [(Database.new_ok fresh).2]
    exact ⟨fun _ _ h => (by cases h), fun _ _ h => (by cases h), fun _ _ h => by cases h⟩
  | @step s before a admitted ih =>
    exact entitled_perform before.balanced.1 ih fun id name ha => hcreate s id name (ha ▸ admitted)

/-- Every session is in a state that its database can be in. -/
theorem Run.reached (run : Run settings store allowed s) : Database.Reached τ s.database := by
  induction run with
  | start fresh => exact .new fresh
  | step before a admitted ih => exact ih.advance (.act a)

end Session
end

/-! ## What a name opens -/

namespace Database

/-- The name of a collection in memory. -/
def name? (d : Database) (h : Handle) : Option String := (d.collection? h).map (·.content.name)

/-- **A name that was given up**: the index does not have it, but the store still has, and leads to
a collection that is cached under another one. -/
def Stale (d : Database) (n : String) : Prop :=
  d.cache.lookupName n = none ∧ ∃ id h c, d.store.findByName? n = some id ∧
    d.cache.base.entries.get? id = some h ∧ d.collection? h = some c ∧ c.content.name ≠ n

section
variable {d : Database} {n : String} {id : ObjectId} {h : Handle}

theorem name?_of_tag? {r : Record} (htag : d.workspace.label? tag h = some (tag r)) :
    d.name? h = some r.name := by
  obtain ⟨c, hc, heq⟩ := Option.map_eq_some_iff.1 htag
  exact Option.map_eq_some_iff.2 ⟨c, hc, (Prod.mk.inj heq).1⟩

/-- A pin is no part of the name. -/
theorem name?_pinned {d' : Database} (hw : d'.workspace = d.workspace.modify h Instance.pin)
    {c : Collection} (hc : d.collection? h = some c) : d'.name? h = some c.content.name := by
  have hloaded : d.workspace.pool.get? h = some c := hc
  rw [name?, collection?, hw, Workspace.modify, Workspace.setPool, Pool.get?_modify, if_pos rfl,
    hloaded]
  rfl

/-- **A name in the index opens the collection that bears it.** -/
theorem openByName_of_indexed (hd : d.Filing) (hname : d.cache.lookupName n = some id)
    (opened : (d.openByName n).1 = .ok (some h)) : (d.openByName n).2.name? h = some n := by
  obtain ⟨g, c, hentry, hc, rfl⟩ := hd.borne hname
  obtain ⟨hfound, -, hworkspace⟩ := checkout_of_entry hentry
  have hlook : d.checkoutByName c.content.name = d.checkout id := by
    rw [checkoutByName, hname]
  rw [openByName_eq, hlook] at opened ⊢
  rw [hfound] at opened ⊢
  cases opened
  exact name?_pinned hworkspace hc

/-- A name that is not in the index opens what the store has for it. -/
theorem openByName_of_unindexed (hname : d.cache.lookupName n = none)
    (opened : (d.openByName n).1 = .ok (some h)) :
    ∃ id, d.store.findByName? n = some id ∧ d.openByName n = d.openById id := by
  have hlook : d.checkoutByName n = (none, d) := by rw [checkoutByName, hname]
  rw [openByName_eq, hlook] at opened ⊢
  cases hstore : d.store.findByName? n with
  | none =>
    rw [hstore] at opened
    cases opened
  | some id => exact ⟨id, rfl, rfl⟩

/-- **What is opened by name bears it**, unless the name was given up. -/
theorem Filing.bears_name_iff (hd : d.Filing) (he : d.store.Entitled fun _ => True)
    (opened : (d.openByName n).1 = .ok (some h)) :
    (d.openByName n).2.name? h = some n ↔ ¬d.Stale n := by
  cases hname : d.cache.lookupName n with
  | some id =>
    refine iff_of_true (openByName_of_indexed hd hname opened) fun hstale => ?_
    rw [hstale.1] at hname
    cases hname
  | none =>
    obtain ⟨id, hstore, hopen⟩ := openByName_of_unindexed hname opened
    rw [hopen] at opened ⊢
    cases hentry : d.cache.base.entries.get? id with
    -- the cached collection is opened, whatever its name
    | some g =>
      obtain ⟨hok, -, hworkspace⟩ := openById_of_entry hentry
      rw [hok] at opened
      cases opened
      obtain ⟨c, hc, -⟩ := Option.map_eq_some_iff.1 (hd.filed hentry)
      rw [name?_pinned hworkspace hc, Option.some.injEq]
      constructor
      · rintro hn ⟨-, id', g', c', hstore', hentry', hc', hne⟩
        rw [hstore] at hstore'
        cases hstore'
        rw [hentry] at hentry'
        cases hentry'
        rw [show d.collection? h = some c from hc] at hc'
        cases hc'
        exact hne hn
      · intro hstale
        exact Decidable.byContradiction fun hne =>
          hstale ⟨hname, id, _, c, hstore, hentry, hc, hne⟩
    -- the record is loaded that the name was written with
    | none =>
      obtain ⟨block, r, hraw, hread, htag, -⟩ := hd.opens_of_absent hentry opened
      obtain ⟨-, r₀, hraw₀, rfl⟩ := he.named n id hstore
      rw [hraw] at hraw₀
      cases hraw₀
      have hsame := Record.name_of_ofBytes_encode hread
      refine iff_of_true (hsame ▸ name?_of_tag? htag) ?_
      rintro ⟨-, id', g', c', hstore', hentry', -⟩
      rw [hstore] at hstore'
      cases hstore'
      rw [hentry] at hentry'
      cases hentry'

/-- No name is given up where an identity has one name for all time. -/
theorem not_stale_of_entitled (hd : d.Filing) {ν : ObjectId → String}
    (he : Entitled (fun t => t.1 = ν t.2) d.holdings) (n : String) : ¬d.Stale n := by
  rintro ⟨-, id, h, c, hstore, hentry, hc, hne⟩
  obtain ⟨c', hc', rfl⟩ := Option.map_eq_some_iff.1 (hd.filed hentry)
  obtain rfl : c = c' := Option.some.inj (hc.symm.trans hc')
  have hn : n = ν c.content.id := (he.store.named n _ hstore).1
  have hcached : c.content.name = ν c.content.id := he.loaded h c hc
  exact hne (hcached.trans hn.symm)

end
end Database

namespace Session

/-- **What is opened by name bears it**, in every session over a store that was empty at first,
exactly if the name was not given up; and none is if no identity is created under two names. -/
theorem Run.opens_name_iff {τ : Type} {settings : Settings} {allowed : Session τ → Action → Prop}
    {s : Session τ} (run : Run settings {} allowed s) {n : String} {h : Handle}
    (opened : (s.database.openByName n).1 = .ok (some h)) :
    ((s.database.openByName n).2.name? h = some n ↔ ¬s.database.Stale n) ∧
      ((∃ ν : ObjectId → String, ∀ s id name, allowed s (.create id name) → name = ν id) →
        ¬s.database.Stale n) := by
  have hd := run.reached.filing
  have he : Entitled (fun _ => True) s.database.holdings := run.entitled fun _ _ _ _ => trivial
  refine ⟨hd.bears_name_iff he.store opened, fun ⟨ν, hν⟩ => ?_⟩
  exact Database.not_stale_of_entitled hd (run.entitled hν) n

/-- A collection that was written and evicted is opened by its name. -/
theorem opens_name_after_eviction :
    let s : Session Unit := [.create 1 "/db", .flushDirty, .release 0, .evict].foldl perform
      { database := narrowDatabase }
    (s.database.openByName "/db").1 = .ok (some 1) ∧ ¬s.database.Stale "/db" ∧
      (s.database.openByName "/db").2.name? 1 = some "/db" := by
  intro s
  have run : Run narrow {} (fun _ _ => True) s := (Run.start new_narrow).each _
  have opened : (s.database.openByName "/db").1 = .ok (some 1) := by decide +kernel
  have hnew : s.database.cache.base.entries.get? 1 = none := by decide +kernel
  have hfresh : ¬s.database.Stale "/db" := by
    rintro ⟨-, id, h, c, hstore, hentry, -⟩
    have hid : s.database.store.findByName? "/db" = some 1 := by decide +kernel
    rw [hid] at hstore
    cases hstore
    rw [hnew] at hentry
    cases hentry
  exact ⟨opened, hfresh, (run.opens_name_iff opened).1.2 hfresh⟩

/-- **A name that was given up** opens the collection that gave it up, under its new name. -/
theorem opens_former_name :
    let s : Session Unit := [.create 1 "/a", .create 1 "/b"].foldl perform
      { database := narrowDatabase }
    Run narrow {} (fun _ _ => True) s ∧ (s.database.openByName "/a").1 = .ok (some 1) ∧
      (s.database.openByName "/a").2.name? 1 = some "/b" := by
  intro s
  have run : Run narrow {} (fun _ _ => True) s := (Run.start new_narrow).each _
  exact ⟨run, by decide +kernel, by decide +kernel⟩

end Session
end Folio
