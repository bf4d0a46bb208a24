import Mathlib.Data.List.Basic
import Folio.Proofs.Cache.Idle

/-! # A larger cache does no worse

Two caches of fixed capacities are asked the same things.  They fill up, replace and evict at
different times, and it is not enough that the larger one has whatever the smaller one has: what
leaves the larger cache must not be needed in the smaller one.  What is kept is that the order of
use of the smaller cache is that of the larger one with some identities left out, and that the
larger cache has at least as many free places (`Beneath`).  So the smaller cache is full if the
larger one is, and the first object that is willing to leave the larger cache is then either the
first one in the smaller cache as well or not in it at all (`find?_eq_of_sublist`).

What two caches hold in common they hold in the same state, so the objects in the smaller one
answer as they do in the larger one (`Paired`).  **`larger_does_no_worse`** says what follows for
the look-ups; it needs no object to agree to leave, only that those who are asked stay as they are.
-/
namespace Folio.Cache

/-! ## Orders of use -/

section Orders
variable {n m : Nat} {ids small large : List ObjectId} {leaves leaves' : ObjectId → Bool}
  {id k : ObjectId}

/-- **An order of use is beneath another one**: it is part of it, and no more places are free in a
cache of `n` places than in one of `m`. -/
structure Beneath (n m : Nat) (small large : List ObjectId) : Prop where
  sublist : small.Sublist large
  free : large.length + n ≤ small.length + m

theorem length_erase_concat (hk : k ∈ ids) (id : ObjectId) :
    (ids.erase k ++ [id]).length = ids.length := by
  have hpos := List.length_pos_of_mem hk
  rw [List.length_append, List.length_erase_of_mem hk, List.length_singleton]
  omega

theorem length_touch (ids : List ObjectId) (id : ObjectId) :
    (touch ids id).length = ids.length := by
  unfold touch
  split
  · exact length_erase_concat ‹_› id
  · rfl

theorem length_takeIn (n : Nat) (leaves : ObjectId → Bool) (hid : id ∉ ids) :
    (takeIn n leaves ids id).length = if ids.length < n then ids.length + 1 else ids.length := by
  unfold takeIn
  rw [if_neg hid]
  split
  · exact List.length_append
  · split
    · exact length_erase_concat (List.mem_of_find?_eq_some ‹_›) id
    · rfl

theorem takeIn_sublist (n : Nat) (leaves : ObjectId → Bool) (hid : id ∉ ids) :
    (takeIn n leaves ids id).Sublist (ids ++ [id]) := by
  unfold takeIn
  rw [if_neg hid]
  split
  · exact .refl _
  · split
    · exact List.erase_sublist.append_right [id]
    · exact List.sublist_append_left ids [id]

theorem mem_of_mem_touch (hk : k ∈ touch ids id) :
    k ∈ ids := by
  unfold touch at hk
  split at hk
  · rcases List.mem_append.1 hk with hk | hk
    · exact List.mem_of_mem_erase hk
    · exact List.mem_singleton.1 hk ▸ ‹id ∈ ids›
  · exact hk

theorem mem_of_mem_takeIn (hk : k ∈ takeIn n leaves ids id) (hne : k ≠ id) : k ∈ ids := by
  by_cases hid : id ∈ ids
  · rw [takeIn, if_pos hid] at hk
    exact mem_of_mem_touch hk
  · have hmem := (takeIn_sublist n leaves hid).mem hk
    exact (List.mem_append.1 hmem).resolve_right fun h => hne (List.mem_singleton.1 h)

/-- Where the first element that passes a test is in a part of the list, it is the first one
there. -/
theorem find?_eq_of_sublist (hsub : small.Sublist large) (hnodup : large.Nodup)
    (hfind : large.find? leaves = some k) (hk : k ∈ small) : small.find? leaves = some k := by
  induction hsub with
  | slnil => cases hk
  | @cons small large a hsub ih =>
    obtain ⟨ha, hnodup⟩ := List.nodup_cons.1 hnodup
    by_cases hleaves : leaves a = true
    · rw [List.find?_cons_of_pos hleaves, Option.some.injEq] at hfind
      exact absurd (hsub.mem (hfind ▸ hk)) ha
    · rw [List.find?_cons_of_neg hleaves] at hfind
      exact ih hnodup hfind hk
  | @cons_cons small large a hsub ih =>
    obtain ⟨ha, hnodup⟩ := List.nodup_cons.1 hnodup
    by_cases hleaves : leaves a = true
    · rw [List.find?_cons_of_pos hleaves] at hfind ⊢
      exact hfind
    · rw [List.find?_cons_of_neg hleaves] at hfind ⊢
      have hne : k ≠ a := fun heq => hleaves (heq ▸ List.find?_some hfind)
      exact ih hnodup hfind (List.mem_of_ne_of_mem hne hk)

theorem sublist_erase (hsub : small.Sublist large) (hk : k ∉ small) :
    small.Sublist (large.erase k) := by
  have herase := hsub.erase k
  rwa [List.erase_of_not_mem hk] at herase

theorem Beneath.erase (hb : Beneath n m small large) (id : ObjectId) :
    Beneath n m (small.erase id) (large.erase id) := by
  refine ⟨hb.sublist.erase id, ?_⟩
  have hfree := hb.free
  by_cases hlarge : id ∈ large
  · have hpos := List.length_pos_of_mem hlarge
    rw [List.length_erase_of_mem hlarge]
    by_cases hsmall : id ∈ small
    · have hpos' := List.length_pos_of_mem hsmall
      rw [List.length_erase_of_mem hsmall]
      omega
    · rw [List.erase_of_not_mem hsmall]
      omega
  · have hsmall : id ∉ small := fun hsmall => hlarge (hb.sublist.mem hsmall)
    rw [List.erase_of_not_mem hlarge, List.erase_of_not_mem hsmall]
    exact hfree

theorem Beneath.touch (hb : Beneath n m small large) (id : ObjectId) :
    Beneath n m (touch small id) (touch large id) := by
  refine ⟨?_, by rw [length_touch, length_touch]; exact hb.free⟩
  unfold Cache.touch
  by_cases hlarge : id ∈ large
  · rw [if_pos hlarge]
    split
    · exact (hb.sublist.erase id).append_right [id]
    · exact (sublist_erase hb.sublist ‹_›).trans (List.sublist_append_left _ [id])
  · rw [if_neg hlarge, if_neg fun hsmall => hlarge (hb.sublist.mem hsmall)]
    exact hb.sublist

/-- Where neither cache has a free place, what the smaller one takes in is part of what the larger
one takes in. -/
theorem takeIn_sublist_of_full (hsub : small.Sublist large) (hnodup : large.Nodup)
    (hleaves : ∀ k ∈ small, leaves k = leaves' k) (hid : id ∉ large) (hsmall : ¬small.length < n)
    (hlarge : ¬large.length < m) :
    (takeIn n leaves small id).Sublist (takeIn m leaves' large id) := by
  have hid' : id ∉ small := fun h => hid (hsub.mem h)
  have htakes := takeIn_sublist n leaves hid'
  unfold takeIn at htakes ⊢
  rw [if_neg hid, if_neg hlarge]
  cases hfind : large.find? leaves' with
  | none =>
    have hnone : small.find? leaves = none := by
      rw [List.find?_congr hleaves, List.find?_eq_none]
      exact fun k hk => List.find?_eq_none.1 hfind k (hsub.mem hk)
    rw [if_neg hid', if_neg hsmall, hnone]
    exact hsub
  | some k =>
    by_cases hk : k ∈ small
    · have hsame : small.find? leaves = some k := by
        rw [List.find?_congr hleaves]
        exact find?_eq_of_sublist hsub hnodup hfind hk
      rw [if_neg hid', if_neg hsmall, hsame]
      exact (hsub.erase k).append_right [id]
    · exact htakes.trans ((sublist_erase hsub hk).append_right [id])

/-- **Two caches that take in the same object stay one beneath the other.** -/
theorem Beneath.takeIn (hb : Beneath n m small large) (hnodup : large.Nodup)
    (hsmall : small.length ≤ n) (hlarge : large.length ≤ m)
    (hleaves : ∀ k ∈ small, leaves k = leaves' k) (id : ObjectId) :
    Beneath n m (takeIn n leaves small id) (takeIn m leaves' large id) := by
  have hfree := hb.free
  by_cases hold : id ∈ small
  · have hold' := hb.sublist.mem hold
    unfold Cache.takeIn
    rw [if_pos hold, if_pos hold']
    exact hb.touch id
  have hlength := length_takeIn n leaves hold
  have htakes := takeIn_sublist n leaves hold
  -- where only the larger cache has the object, whoever leaves the smaller one stays in it
  by_cases hold' : id ∈ large
  · have htouch : Cache.takeIn m leaves' large id = large.erase id ++ [id] := by
      rw [Cache.takeIn, Cache.touch, if_pos hold', if_pos hold']
    refine ⟨?_, ?_⟩
    · rw [htouch]
      exact htakes.trans ((sublist_erase hb.sublist hold).append_right [id])
    · rw [htouch, length_erase_concat hold', hlength]
      split <;> omega
  have hlength' := length_takeIn m leaves' hold'
  refine ⟨?_, by rw [hlength, hlength']; split <;> split <;> omega⟩
  by_cases hroom : large.length < m
  · have hfits : Cache.takeIn m leaves' large id = large ++ [id] := by
      rw [Cache.takeIn, if_neg hold', if_pos hroom]
    rw [hfits]
    exact htakes.trans (hb.sublist.append_right [id])
  · exact takeIn_sublist_of_full hb.sublist hnodup hleaves hold' (by omega) hroom

end Orders

/-- A look-up finds the identities in the order of use. -/
theorem get_isSome_iff {σ α : Type} {c : Cache σ α} (hs : Sound c) {id : ObjectId} :
    (c.get id).1.isSome = true ↔ id ∈ c.ids := by
  rw [hs.mem_ids_iff, contains, Table.contains_eq, Cache.get]
  cases c.entries.get? id <;> rfl

/-! ## Two caches -/

variable {σ τ α : Type} [Cacheable α]

/-- **Two calm caches after the same requests.**  The smaller one is beneath the larger one, and
what they hold in common they hold in the same state. -/
structure Paired (n m : Nat) (s : Cache σ α × Workspace σ α) (l : Cache τ α × Workspace τ α) :
    Prop where
  small : Calm n s.1 s.2
  large : Calm m l.1 l.2
  beneath : Beneath n m s.1.ids l.1.ids
  same : ∀ k ∈ s.1.ids, l.1.cached? l.2 k = s.1.cached? s.2 k

section Pairs
variable {n m : Nat} {s : Cache σ α × Workspace σ α} {l : Cache τ α × Workspace τ α}

/-- What a request makes of two orders of use. -/
theorem Paired.order (hp : Paired n m s l) (r : Request α) :
    Beneath n m (r.order n (s.1.willing s.2) s.1.ids) (r.order m (l.1.willing l.2) l.1.ids) := by
  cases r with
  | get id => exact hp.beneath.touch id
  | remove id => exact hp.beneath.erase id
  | add i =>
    refine hp.beneath.takeIn hp.large.threads.nodup ?_ ?_ (fun k hk => ?_) _
    · rw [hp.small.toSound.length_ids, ← hp.small.capacity_eq]
      exact hp.small.size_le
    · rw [hp.large.toSound.length_ids, ← hp.large.capacity_eq]
      exact hp.large.size_le
    · rw [willing, willing, hp.same k hk]

/-- Whoever is cached after a request is the new instance or was cached before. -/
theorem Request.instance?_congr {ids : List ObjectId} {leaves : ObjectId → Bool} {k : ObjectId}
    {before before' : ObjectId → Option (Instance α)} (hsame : ∀ k ∈ ids, before' k = before k)
    (r : Request α) (hk : k ∈ r.order n leaves ids) :
    r.instance? before' k = r.instance? before k := by
  cases r with
  | get id => exact hsame k (mem_of_mem_touch hk)
  | remove id => exact hsame k (List.mem_of_mem_erase hk)
  | add i =>
    unfold instance?
    by_cases hnew : k = Cacheable.identity i.content
    · exact (if_pos hnew).trans (if_pos hnew).symm
    · have hold := hsame k (mem_of_mem_takeIn hk hnew)
      exact (if_neg hnew).trans (hold.trans (if_neg hnew).symm)

/-- **A request keeps two caches paired.** -/
theorem Paired.serve (hask : Impassive α) (hp : Paired n m s l) {r : Request α} (hr : r.Quiet) :
    Paired n m (serve s r) (serve l r) := by
  have hs := hp.small.serve hask hr
  have hl := hp.large.serve hask hr
  have hbeneath : Beneath n m (Cache.serve s r).1.ids (Cache.serve l r).1.ids := by
    rw [hs.ids_eq, hl.ids_eq]
    exact hp.order r
  refine ⟨hs.calm, hl.calm, hbeneath, fun k hk => ?_⟩
  rw [hs.cached k hk, hl.cached k (hbeneath.sublist.mem hk)]
  exact r.instance?_congr hp.same (hs.ids_eq ▸ hk)

theorem Paired.serve_all (hask : Impassive α) (hp : Paired n m s l) {requests : List (Request α)}
    (hquiet : ∀ r ∈ requests, r.Quiet) :
    Paired n m (requests.foldl Cache.serve s) (requests.foldl Cache.serve l) := by
  induction requests generalizing s l with
  | nil => exact hp
  | cons r requests ih =>
    rw [List.forall_mem_cons] at hquiet
    exact ih (hp.serve hask hquiet.1) hquiet.2

omit [Cacheable α] in
/-- Whatever is found in the smaller cache is found in the larger one. -/
theorem Paired.get_isSome (hp : Paired n m s l) {id : ObjectId}
    (hfound : (s.1.get id).1.isSome = true) : (l.1.get id).1.isSome = true := by
  rw [get_isSome_iff hp.small.toSound] at hfound
  rw [get_isSome_iff hp.large.toSound]
  exact hp.beneath.sublist.mem hfound

end Pairs

/-- **A larger cache does no worse.**  Two caches that cannot grow, the second with at least as much
room as the first, start empty and are asked the same things, whatever else they may differ in.
The objects that are added are new, clean and unlocked, and being asked whether they may leave does
nothing to them.  Then the order of use of the smaller cache is always part of that of the larger
one, so every look-up that finds something in the smaller cache does so in the larger one. -/
theorem larger_does_no_worse (hask : Impassive α) (small large : Settings)
    (hsmall : small.maxCapacity = small.capacity) (hlarge : large.maxCapacity = large.capacity)
    (hle : small.capacity ≤ large.capacity) (name name' : String)
    (hook : Option (FlushHook σ α)) (hook' : Option (FlushHook τ α)) (w : Workspace σ α)
    (w' : Workspace τ α) {requests : List (Request α)} (hquiet : ∀ r ∈ requests, r.Quiet) :
    let s := requests.foldl serve (newHooked name small hook, w)
    let l := requests.foldl serve (newHooked name' large hook', w')
    s.1.ids.Sublist l.1.ids ∧
      ∀ id, (s.1.get id).1.isSome = true → (l.1.get id).1.isSome = true := by
  have hs := calm_newHooked name hsmall hook w
  have hl := calm_newHooked name' hlarge hook' w'
  have hempty : (newHooked name small hook).ids = [] := by
    rw [newHooked_eq]
    rfl
  have hempty' : (newHooked name' large hook').ids = [] := by
    rw [newHooked_eq]
    rfl
  have hstart : Paired small.capacity large.capacity (newHooked name small hook, w)
      (newHooked name' large hook', w') := by
    refine ⟨hs, hl, ?_, fun k hk => ?_⟩
    · rw [hempty, hempty']
      exact ⟨.refl _, by simpa using hle⟩
    · rw [hempty] at hk
      cases hk
  have hp := hstart.serve_all hask hquiet
  exact ⟨hp.beneath.sublist, fun id hfound => hp.get_isSome hfound⟩

/-- Three collections are added, and the first one is looked up before the third one comes. -/
def threeRequests : List (Request Record) :=
  [.add { content := { id := 7, name := "/db" } }, .add { content := { id := 8, name := "/tmp" } },
    .get 7, .add { content := { id := 9, name := "/new" } }]

/-- With room for two, the collection that was looked up is still there in the end. -/
theorem larger_does_no_worse_three :
    let s := threeRequests.foldl serve
      (newHooked "small" { capacity := 1, maxCapacity := 1 } (some Store.flushHook),
        { outside := {} })
    let l := threeRequests.foldl serve
      ((newHooked "large" { capacity := 2, maxCapacity := 2 } none : Cache Unit Record),
        { outside := () })
    s.1.ids = [9] ∧ l.1.ids = [7, 9] ∧ s.1.ids.Sublist l.1.ids ∧
      (s.1.get 9).1.isSome = true ∧ (l.1.get 9).1.isSome = true ∧
      (s.1.get 7).1.isSome = false ∧ (l.1.get 7).1.isSome = true := by
  have hquiet : ∀ r ∈ threeRequests, r.Quiet := by
    simp only [threeRequests, List.forall_mem_cons]
    exact ⟨⟨rfl, rfl, rfl⟩, ⟨rfl, rfl, rfl⟩, trivial, ⟨rfl, rfl, rfl⟩, by simp⟩
  obtain ⟨hsub, hfound⟩ := larger_does_no_worse (fun _ => rfl)
    { capacity := 1, maxCapacity := 1 } { capacity := 2, maxCapacity := 2 } rfl rfl (by decide)
    "small" "large" (some Store.flushHook) (none : Option (FlushHook Unit Record))
    { outside := {} } { outside := () } hquiet
  have hhit := hfound 9 (by decide)
  exact ⟨by decide, by decide, hsub, by decide, hhit, by decide, by decide⟩

end Folio.Cache
