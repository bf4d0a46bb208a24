import Mathlib.Data.List.Find
import Folio.Proofs.Cache.Adding

/-! # Caches of idle objects

An instance is idle if it has no pins, no changes, and no writer at work or waiting.  Where asking
does nothing to an object (`Impassive`), a cache of idle objects does nothing to its instances: the
lock that is taken for the question is given back, nothing is written, and whoever leaves is as
before.  So what a pass takes out can be told from the answers alone (`evictionPass_idle`), and the
instances in memory stay as they are while another one is added (`add_idle`).

A cache that is as large as it may be does not grow either.  What the requests of its owner come to
is then a matter of the order of use and of who is willing to leave: **`Calm.serve`**.
-/
namespace Folio.Cache

variable {σ α : Type}

/-! ## Idle instances -/

/-- An instance without pins, without changes, and without a writer that works or waits. -/
structure Instance.Idle (i : Instance α) : Prop where
  unpinned : i.refCount = 0
  clean : i.dirty = false
  free : i.lock.admits .read = true

/-- The instance cached under an identity. -/
def cached? (c : Cache σ α) (w : Workspace σ α) (id : ObjectId) : Option (Instance α) :=
  (c.entries.get? id).bind w.pool.get?

/-- All cached instances are in memory and idle. -/
def Idle (c : Cache σ α) (w : Workspace σ α) : Prop :=
  ∀ id h, c.entries.get? id = some h → ∃ i, w.pool.get? h = some i ∧ i.Idle

variable [Cacheable α]

/-- Asking an object whether it may leave does nothing to it. -/
def Impassive (α : Type) [Cacheable α] : Prop :=
  ∀ i : Instance α, (Cacheable.allowUnload i).2 = i

/-- The answer of an instance that is asked under its read lock. -/
def Instance.agrees (i : Instance α) : Bool := (Cacheable.allowUnload i.hold).1

/-- The object cached under an identity would agree to leave. -/
def willing (c : Cache σ α) (w : Workspace σ α) (id : ObjectId) : Bool :=
  (c.cached? w id).any Instance.agrees

section Asking
variable {c : Cache σ α} {w w' : Workspace σ α} {h : Handle} {id : ObjectId}
  {exclude : Option ObjectId} {i : Instance α}

theorem mayUnload_idle (hask : Impassive α) (hook : Option (FlushHook σ α)) (hi : i.Idle) (s : σ) :
    mayUnload hook i s = (i.agrees, i, s) := by
  rcases mayUnload_cases hook i s with ⟨hno, hmay⟩ | ⟨-, -, hmay⟩
  · have hrefuses : i.agrees = false := by
      simpa [eligible, Instance.agrees, hi.unpinned, hi.free, hi.clean] using hno
    rw [hmay, hrefuses]
  · have hasked : Cacheable.allowUnload i.hold = (i.agrees, i.hold) :=
      Prod.ext rfl (hask i.hold)
    have hsaved : flushBeforeUnload hook i.hold s = (true, i.hold, s) :=
      if_neg (by simp [Instance.hold, Instance.setLock, hi.clean])
    have hpins : (i.hold.refCount == 0) = true := beq_iff_eq.2 hi.unpinned
    have hheld : askHeld hook i.hold s = (i.agrees, i.hold, s) := by
      unfold askHeld
      rw [hasked]
      cases hagrees : i.agrees with
      | false => rfl
      | true => exact (if_pos hpins).trans hsaved
    rw [hmay, hheld, Instance.unhold_hold]

theorem tryUnload_idle (hask : Impassive α) (c : Cache σ α) (hh : w.pool.get? h = some i)
    (hi : i.Idle) : c.tryUnload h w = (i.agrees, w) := by
  unfold tryUnload
  simp only [hh, mayUnload_idle hask c.flushHook hi w.outside, Pool.set_get? hh]

/-- **Idle instances are asked in vain without effect.** -/
theorem Refused.eq_of_idle (hask : Impassive α) (hall : c.Idle w) (hr : Refused c w w') :
    w' = w := by
  induction hr with
  | nobody => rfl
  | @next w₁ w₂ id h _ entry refusal ih =>
    subst ih
    obtain ⟨i, hh, hi⟩ := hall id h entry
    rw [tryUnload_idle hask c hh hi] at refusal
    exact (congrArg Prod.snd refusal).symm

theorem Finds.eq_of_idle (hask : Impassive α) (hall : c.Idle w)
    (hf : Finds c exclude w id h w') : w' = w := by
  obtain ⟨w₀, hr, hagreed⟩ := hf.agreed
  obtain rfl := hr.eq_of_idle hask hall
  obtain ⟨i, hh, hi⟩ := hall id h hf.entry
  rw [tryUnload_idle hask c hh hi] at hagreed
  exact (congrArg Prod.snd hagreed).symm

theorem scan_idle (hask : Impassive α) (hall : c.Idle w) (exclude : Option ObjectId)
    (ids : List ObjectId) :
    (c.scan exclude ids w).1.map (·.1) =
      ids.find? fun k => decide (exclude ≠ some k) && c.willing w k := by
  induction ids with
  | nil => rfl
  | cons id ids ih =>
    unfold scan
    by_cases hex : exclude = some id
    · rw [if_pos hex, List.find?_cons_of_neg (by simp [hex])]
      exact ih
    rw [if_neg hex]
    cases hget : c.entries.get? id with
    | none =>
      rw [List.find?_cons_of_neg (by simp [willing, cached?, hget])]
      exact ih
    | some h =>
      obtain ⟨i, hh, hi⟩ := hall id h hget
      have hwilling : c.willing w id = i.agrees := by simp [willing, cached?, hget, hh]
      simp only [tryUnload_idle hask c hh hi]
      cases hagrees : i.agrees with
      | false =>
        rw [List.find?_cons_of_neg (by simp [hwilling, hagrees])]
        exact ih
      | true =>
        rw [List.find?_cons_of_pos (by simp [hwilling, hagrees, hex])]
        rfl

/-- **A pass takes out the first that is willing.** -/
theorem evictionPass_idle (hask : Impassive α) (hall : c.Idle w) (exclude : Option ObjectId) :
    (c.evictionPass exclude w).value =
      c.ids.find? fun k => decide (exclude ≠ some k) && c.willing w k := by
  refine value_evictionPass (P := fun w' => w' = w) (fun w₁ w₂ heq hr => ?_)
    (fun w₁ heq => heq ▸ scan_idle hask hall exclude c.ids) rfl
  subst heq
  exact hr.eq_of_idle hask hall

/-- However room is made, the instances stay as they are, and so do the settings. -/
theorem makeRoom_idle (hask : Impassive α) (hall : c.Idle w) (id : ObjectId) (h : Handle) :
    (c.makeRoom id h w).workspace.pool = w.pool ∧
      (c.makeRoom id h w).cache.settings = c.settings := by
  rcases makeRoom_cases c id h w with ⟨k, g, w', -, hf, hroom⟩ | ⟨w', hr, hroom⟩
  · obtain rfl := hf.eq_of_idle hask hall
    rcases hroom with hroom | ⟨n, b, -, -, hroom⟩
    all_goals
      rw [hroom]
      exact ⟨rfl, rfl⟩
  · obtain rfl := hr.eq_of_idle hask hall
    rcases hroom with ⟨n, b, -, -, hroom⟩ | hroom
    all_goals
      rw [hroom]
      exact ⟨rfl, rfl⟩

omit [Cacheable α] in
/-- Nothing is written back when an idle instance is replaced. -/
theorem pool_replace (hall : c.Idle w) {previous : Handle}
    (hold : c.entries.get? id = some previous) (h : Handle) :
    (c.replace id previous h w).workspace.pool = w.pool := by
  obtain ⟨i, hh, hi⟩ := hall id previous hold
  have hkept : flushReplaced c.flushHook i w.outside = (i, w.outside) := by
    unfold flushReplaced
    rw [hi.clean]
  unfold replace
  simp only [hh, hkept]
  split
  · rfl
  · exact Pool.set_get? hh

end Asking

/-! ## New instances -/

/-- The instance as it is when it is cached without pins. -/
def Instance.withoutPins (i : Instance α) : Instance α := { i with refCount := 0 }

/-- The workspace with a new instance. -/
def Workspace.bring (w : Workspace σ α) (i : Instance α) : Workspace σ α :=
  w.setPool (w.pool.add i).2

/-- The handle of the next instance that is brought in. -/
def Workspace.fresh (w : Workspace σ α) : Handle := w.pool.instances.size

section Bringing
variable {c : Cache σ α} {w : Workspace σ α} {g : Handle} {id k : ObjectId} {i j : Instance α}

omit [Cacheable α]

theorem Workspace.get?_bring (w : Workspace σ α) (i : Instance α) (g : Handle) :
    (w.bring i).pool.get? g = if g = w.fresh then some i else w.pool.get? g :=
  w.pool.get?_add i g

theorem Workspace.get?_bring_fresh (w : Workspace σ α) (i : Instance α) :
    (w.bring i).pool.get? w.fresh = some i := by
  rw [get?_bring, if_pos rfl]

theorem Workspace.get?_bring_of_some (hg : w.pool.get? g = some j) (i : Instance α) :
    (w.bring i).pool.get? g = some j := by
  have hne : g ≠ w.fresh := by
    rintro rfl
    have hnone : w.pool.get? w.fresh = none := Array.getElem?_eq_none (Nat.le_refl _)
    rw [hnone] at hg
    cases hg
  rw [get?_bring, if_neg hne, hg]

theorem Workspace.modify_bring (w : Workspace σ α) (i : Instance α) :
    (w.bring i).modify w.fresh ({ · with refCount := 0 }) = w.bring i.withoutPins :=
  congrArg w.setPool (w.pool.modify_add i _)

theorem Idle.bring (hall : c.Idle w) (i : Instance α) : c.Idle (w.bring i) := by
  intro id g hget
  obtain ⟨j, hg, hj⟩ := hall id g hget
  exact ⟨j, Workspace.get?_bring_of_some hg i, hj⟩

theorem Idle.cached?_bring (hall : c.Idle w) (i : Instance α) (k : ObjectId) :
    c.cached? (w.bring i) k = c.cached? w k := by
  unfold cached?
  cases hget : c.entries.get? k with
  | none => rfl
  | some g =>
    obtain ⟨j, hg, -⟩ := hall k g hget
    exact (Workspace.get?_bring_of_some hg i).trans hg.symm

theorem Idle.entered (hall : c.Idle w) (hi : i.Idle) (id : ObjectId) :
    (c.entered id w.fresh).Idle (w.bring i) := by
  intro k g hget
  rcases (c.enters_entered id w.fresh).comes hget with ⟨-, rfl⟩ | hold
  · exact ⟨i, w.get?_bring_fresh i, hi⟩
  · exact hall.bring i k g hold

end Bringing

/-! ## Adding an idle instance -/

section Adding
variable {c : Cache σ α} {w : Workspace σ α} {i : Instance α}

omit [Cacheable α] in
theorem cached?_entered (hall : c.Idle w) (id : ObjectId) (i : Instance α) (k : ObjectId) :
    (c.entered id w.fresh).cached? (w.bring i) k = if k = id then some i else c.cached? w k := by
  have henters := c.enters_entered id w.fresh
  split
  · rename_i hk
    rw [cached?, hk, henters.get?_self]
    exact w.get?_bring_fresh i
  · rw [← hall.cached?_bring i k, cached?, henters.get?_of_ne ‹_›]
    rfl

theorem identity?_bring (w : Workspace σ α) (i : Instance α) :
    (w.bring i).identity? w.fresh = some (Cacheable.identity i.content) := by
  rw [Workspace.identity?, w.get?_bring_fresh]
  rfl

/-- Who leaves for a new instance: the first that is willing. -/
theorem crowding_idle (hask : Impassive α) (hs : Sound c) (hall : c.Idle w)
    (hi : i.withoutPins.Idle) {id : ObjectId} (hnew : c.entries.get? id = none) :
    (c.crowding (w.bring i) w.fresh 0 id).pass.value = c.ids.find? (c.willing w) := by
  have hvalue := evictionPass_idle hask (hall.entered hi id) (some id)
  rw [hs.ids_entered hnew, List.find?_append] at hvalue
  unfold Start.pass crowding
  rw [w.modify_bring, hvalue, List.find?_cons_of_neg (by simp), List.find?_nil, Option.or_none]
  refine List.find?_congr fun k hk => ?_
  have hne : k ≠ id := fun heq => hs.not_mem_ids hnew (heq ▸ hk)
  rw [willing, willing, cached?_entered hall, if_neg hne]
  simp [Ne.symm hne]

/-- **An addition among idle instances** brings the new one in without pins, and does nothing else
to the instances in memory. -/
theorem add_idle (hask : Impassive α) (hop : c.operational = true) (hall : c.Idle w)
    (hi : i.withoutPins.Idle) :
    (c.add w.fresh 0 (w.bring i)).workspace.pool = (w.bring i.withoutPins).pool ∧
      (c.add w.fresh 0 (w.bring i)).cache.settings = c.settings := by
  have hid := identity?_bring w i
  have hadd := add_eq c w.fresh 0 (w.bring i)
  simp only [hop, hid, w.modify_bring] at hadd
  rw [hadd]
  split
  · exact ⟨pool_replace (hall.bring _) ‹_› _, rfl⟩
  · split
    · exact ⟨rfl, rfl⟩
    · exact makeRoom_idle hask (hall.entered hi _) _ _

end Adding

/-! ## Requests -/

/-- The order of use after a look: whatever is found is the last one. -/
def touch (ids : List ObjectId) (id : ObjectId) : List ObjectId :=
  if id ∈ ids then ids.erase id ++ [id] else ids

/-- The order of use after an object was added, where there is room for `n` objects.  It is the last
one; if room was needed the first that may leave is gone, and if none may leave the order is as it
was. -/
def takeIn (n : Nat) (leaves : ObjectId → Bool) (ids : List ObjectId) (id : ObjectId) :
    List ObjectId :=
  if id ∈ ids then touch ids id
  else if ids.length < n then ids ++ [id]
  else
    match ids.find? leaves with
    | some k => ids.erase k ++ [id]
    | none => ids

/-- What the owner of a cache asks for. -/
inductive Request (α : Type)
  | get (id : ObjectId)
  /-- The instance is a new one. -/
  | add (i : Instance α)
  | remove (id : ObjectId)

/-- The cache is served a request. -/
def serve (s : Cache σ α × Workspace σ α) : Request α → Cache σ α × Workspace σ α
  | .get id => ((s.1.get id).2, s.2)
  | .add i =>
    let r := s.1.add s.2.fresh 0 (s.2.bring i)
    (r.cache, r.workspace)
  | .remove id => ((s.1.remove id).2, s.2)

namespace Request

/-- Whatever is added is clean and nobody writes to it or waits to do so. -/
def Quiet : Request α → Prop
  | .add i => i.withoutPins.Idle
  | _ => True

/-- What a request makes of an order of use. -/
def order (n : Nat) (leaves : ObjectId → Bool) (ids : List ObjectId) : Request α → List ObjectId
  | .get id => touch ids id
  | .add i => takeIn n leaves ids (Cacheable.identity i.content)
  | .remove id => ids.erase id

/-- The instance that is cached under an identity after a request, if one is. -/
def instance? (before : ObjectId → Option (Instance α)) (k : ObjectId) :
    Request α → Option (Instance α)
  | .add i => if k = Cacheable.identity i.content then some i.withoutPins else before k
  | _ => before k

end Request

/-! ## Calm caches -/

/-- **A calm cache** is a tidy one that is as large as it may be, with room for `n` objects, and
holds idle ones only. -/
structure Calm (n : Nat) (c : Cache σ α) (w : Workspace σ α) : Prop extends Tidy c where
  operational : c.operational = true
  capacity_eq : c.capacity = n
  max_eq : c.settings.maxCapacity = n
  idle : c.Idle w

/-- What a request comes to for a calm cache. -/
structure Served (n : Nat) (r : Request α) (c : Cache σ α) (w : Workspace σ α) (c' : Cache σ α)
    (w' : Workspace σ α) : Prop where
  calm : Calm n c' w'
  ids_eq : c'.ids = r.order n (c.willing w) c.ids
  cached : ∀ k ∈ c'.ids, c'.cached? w' k = r.instance? (c.cached? w) k

/-- What an addition makes of order and entries. -/
structure TakesIn (n : Nat) (c : Cache σ α) (w : Workspace σ α) (h : Handle) (id : ObjectId)
    (c' : Cache σ α) : Prop where
  ids_eq : c'.ids = takeIn n (c.willing w) c.ids id
  comes : ∀ k g, c'.entries.get? k = some g → k = id ∧ g = h ∨ k ≠ id ∧ c.entries.get? k = some g
  capacity_ge : c.capacity ≤ c'.capacity

section Serving
variable {c : Cache σ α} {w : Workspace σ α} {i : Instance α} {n : Nat}

omit [Cacheable α] in
theorem calm_newHooked (name : String) {settings : Settings}
    (hfixed : settings.maxCapacity = settings.capacity) (hook : Option (FlushHook σ α))
    (w : Workspace σ α) : Calm settings.capacity (newHooked name settings hook) w := by
  refine ⟨tidy_newHooked name settings hook, ?_, ?_, ?_, fun id h hget => ?_⟩
  all_goals rw [newHooked_eq] at *
  · rfl
  · rfl
  · exact hfixed
  · simp [Cache.new] at hget

theorem Calm.get (hc : Calm n c w) (id : ObjectId) :
    Served n (.get id : Request α) c w (c.get id).2 w := by
  have htidy := (hc.toTidy.get id).1
  unfold Cache.get at htidy ⊢
  cases hget : c.entries.get? id with
  | none =>
    rw [hget] at htidy
    refine ⟨⟨htidy, hc.operational, hc.capacity_eq, hc.max_eq, hc.idle⟩, ?_, fun _ _ => rfl⟩
    exact (if_neg (hc.toSound.not_mem_ids hget)).symm
  | some h =>
    rw [hget] at htidy
    have hid := hc.toSound.mem_ids hget
    refine ⟨⟨htidy, hc.operational, hc.capacity_eq, hc.max_eq, hc.idle⟩, ?_, fun _ _ => rfl⟩
    exact (hc.threads.touch hid).toList_eq.trans (if_pos hid).symm

theorem Calm.remove (hc : Calm n c w) (id : ObjectId) :
    Served n (.remove id : Request α) c w (c.remove id).2 w := by
  have htidy := (hc.toTidy.remove id).1
  unfold Cache.remove at htidy ⊢
  cases hget : c.entries.get? id with
  | none =>
    refine ⟨hc, ?_, fun _ _ => rfl⟩
    exact (List.erase_of_not_mem (hc.toSound.not_mem_ids hget)).symm
  | some h =>
    rw [hget] at htidy
    have hids : (c.drop id).ids = c.ids.erase id := (hc.threads.unlink id).toList_eq
    refine ⟨⟨htidy, hc.operational, hc.capacity_eq, hc.max_eq, fun k g hk => ?_⟩, hids,
      fun k hk => ?_⟩
    · exact hc.idle k g ((departs_drop hget rfl).comes k g hk)
    · have hne : k ≠ id := fun heq => hc.threads.nodup.not_mem_erase (hids ▸ heq ▸ hk)
      simp only [cached?, Cache.drop, Table.get?_erase, if_neg hne]
      rfl

theorem Calm.takesIn (hask : Impassive α) (hc : Calm n c w) (hi : i.withoutPins.Idle) :
    TakesIn n c w w.fresh (Cacheable.identity i.content) (c.add w.fresh 0 (w.bring i)).cache := by
  have hadds := hc.toSound.adds hc.operational (identity?_bring w i) 0
  have hlength := hc.toSound.length_ids
  have hcapacity := hc.capacity_eq
  generalize Cacheable.identity i.content = id at hadds
  have hinsert (k : ObjectId) (g : Handle)
      (hk : (c.entries.insert id w.fresh).get? k = some g) :
      k = id ∧ g = w.fresh ∨ k ≠ id ∧ c.entries.get? k = some g := Table.get?_insert_cases hk
  cases hget : c.entries.get? id with
  | some previous =>
    obtain ⟨his, hsame⟩ := hadds.replaces previous hget
    have hid := hc.toSound.mem_ids hget
    refine ⟨?_, his.entries_eq ▸ hinsert, Nat.le_of_eq hsame.symm⟩
    rw [his.ids_eq, takeIn, touch, if_pos hid, if_pos hid]
  | none =>
    have hid := hc.toSound.not_mem_ids hget
    rcases Nat.lt_or_eq_of_le hc.size_le with hroom | hfull
    · obtain ⟨his, hsame⟩ := hadds.fits hget hroom
      refine ⟨?_, his.entries_eq ▸ hinsert, Nat.le_of_eq hsame.symm⟩
      rw [his.ids_eq, takeIn, if_neg hid, if_pos (by omega)]
    have hvalue := crowding_idle hask hc.toSound hc.idle hi hget
    have htaken : takeIn n (c.willing w) c.ids id =
        match c.ids.find? (c.willing w) with
        | some k => c.ids.erase k ++ [id]
        | none => c.ids := by
      rw [takeIn, if_neg hid, if_neg (by omega)]
    rcases hadds.crowds hget hfull with
      ⟨k, g, hpass, hne, -, his, hge⟩ | ⟨-, -, hlt, hle⟩ | ⟨hpass, -, his, hsame, -⟩
    · rw [hvalue] at hpass
      refine ⟨?_, fun k' g' hk' => ?_, hge⟩
      · rw [his.ids_eq, htaken, hpass]
      · rw [his.entries_eq, Table.get?_erase] at hk'
        split at hk'
        · cases hk'
        · exact hinsert k' g' hk'
    -- a calm cache is as large as it may be
    · have hmax := hc.max_eq
      omega
    · rw [hvalue] at hpass
      refine ⟨?_, fun k g hk => Or.inr ⟨fun heq => ?_, his.entries_eq ▸ hk⟩,
        Nat.le_of_eq hsame.symm⟩
      · rw [his.ids_eq, htaken, hpass]
      · rw [his.entries_eq, heq, hget] at hk
        cases hk

theorem Calm.add (hask : Impassive α) (hc : Calm n c w) (hi : i.withoutPins.Idle) :
    Served n (.add i) c w (c.add w.fresh 0 (w.bring i)).cache
      (c.add w.fresh 0 (w.bring i)).workspace := by
  obtain ⟨hpool, hsettings⟩ := add_idle hask hc.operational hc.idle hi
  obtain ⟨hids, hcomes, hge⟩ := hc.takesIn hask hi
  obtain ⟨htidy, hwithin⟩ := hc.toTidy.add w.fresh 0 (w.bring i)
  have hoperational := (perform_wiring c (w.bring i) (.add w.fresh 0)).2
  have hmax := hc.max_eq
  have hcapacity := hc.capacity_eq
  have hle := hwithin (by unfold Within; omega)
  unfold Within at hle
  rw [hsettings] at hle
  -- what is cached afterwards is the new instance or was cached before
  have hcached (k : ObjectId) (g : Handle)
      (hk : (c.add w.fresh 0 (w.bring i)).cache.entries.get? k = some g) :
      ∃ j, (w.bring i.withoutPins).pool.get? g = some j ∧ j.Idle ∧
        (Request.add i).instance? (c.cached? w) k = some j := by
    rcases hcomes k g hk with ⟨rfl, rfl⟩ | ⟨hne, hold⟩
    · exact ⟨_, w.get?_bring_fresh _, hi, if_pos rfl⟩
    · obtain ⟨j, hg, hj⟩ := hc.idle k g hold
      refine ⟨j, Workspace.get?_bring_of_some hg _, hj, (if_neg hne).trans ?_⟩
      rw [cached?, hold]
      exact hg
  refine ⟨⟨htidy, hoperational.trans hc.operational, by omega, hsettings ▸ hmax, ?_⟩, hids, ?_⟩
  · intro k g hk
    obtain ⟨j, hg, hj, -⟩ := hcached k g hk
    exact ⟨j, hpool ▸ hg, hj⟩
  · intro k hk
    obtain ⟨g, hget⟩ := htidy.get?_isSome hk
    obtain ⟨j, hg, -, hj⟩ := hcached k g hget
    rw [hj, cached?, hget, hpool]
    exact hg

/-- **What a calm cache comes to when it is served.** -/
theorem Calm.serve (hask : Impassive α) (hc : Calm n c w) {r : Request α} (hr : r.Quiet) :
    Served n r c w (Cache.serve (c, w) r).1 (Cache.serve (c, w) r).2 := by
  cases r with
  | get id => exact hc.get id
  | add i => exact hc.add hask hr
  | remove id => exact hc.remove id

end Serving
end Folio.Cache
