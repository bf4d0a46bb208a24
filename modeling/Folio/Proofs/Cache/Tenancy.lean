import Folio.Proofs.Cache.Run
import Folio.Proofs.Cache.Shares
import Folio.Cache.Named

/-! # Caches that share a budget

Any number of caches may draw on one budget, with names or without, each of objects of its own
kind.  **`Tenancy.shares_exact`**: whatever they do and in whatever order, the budget has one share
for each of them, which is its capacity, and all of them together stay within the total.  Between
two operations everything but the budget may change, since none of it bears on the shares.
-/
namespace Folio

open Cache (Cacheable FlushHook Handle Workspace)

/-! ## Caches with names -/

namespace NamedCache

variable {σ α : Type}

/-- A new cache with names, with a hook or without one. -/
def newHooked (name : String) (settings : Cache.Settings) (hook : Option (FlushHook σ α)) :
    NamedCache σ α where
  base := Cache.newHooked name settings hook

/-- What the owner of a cache with names can ask of it. -/
inductive Operation where
  | get (id : ObjectId)
  | getByName (name : String)
  | checkout (id : ObjectId)
  | checkoutByName (name : String)
  | add (h : Handle) (refCount : UInt32)
  | remove (id : ObjectId)
  | removeByName (name : String)
  | evict
  | resize (capacity : Nat)
  | setOperational (operational : Bool)
deriving DecidableEq, Repr

/-- What an operation comes down to for the cache without names; `none` if no object has the
name. -/
def Operation.base? (c : NamedCache σ α) : Operation → Option Cache.Operation
  | .get id | .checkout id => some (.get id)
  | .getByName name | .checkoutByName name => (c.lookupName name).map .get
  | .add h refCount => some (.add h refCount)
  | .remove id => some (.remove id)
  | .removeByName name => (c.lookupName name).map .remove
  | .evict => some .evict
  | .resize capacity => some (.resize capacity)
  | .setOperational operational => some (.setOperational operational)

variable [Cacheable α]

/-- The cache and the workspace after an operation. -/
def perform (c : NamedCache σ α) (w : Workspace σ α) :
    Operation → NamedCache σ α × Workspace σ α
  | .get id => ((c.get id).2, w)
  | .getByName name => ((c.getByName name).2, w)
  | .checkout id => ((c.checkout id w).cache, (c.checkout id w).workspace)
  | .checkoutByName name => ((c.checkoutByName name w).cache, (c.checkoutByName name w).workspace)
  | .add h refCount => ((c.add h refCount w).cache, (c.add h refCount w).workspace)
  | .remove id => ((c.remove id w).2, w)
  | .removeByName name => ((c.removeByName name w).2, w)
  | .evict => ((c.evict w).cache, (c.evict w).workspace)
  | .resize capacity => ((c.resize capacity w).cache, (c.resize capacity w).workspace)
  | .setOperational operational => (c.setOperational operational, w)

theorem add_base (c : NamedCache σ α) (h : Handle) (refCount : UInt32) (w : Workspace σ α) :
    (c.add h refCount w).cache.base = (c.base.add h refCount w).cache ∧
      (c.add h refCount w).workspace = (c.base.add h refCount w).workspace := by
  unfold add
  dsimp only
  split <;> exact ⟨rfl, rfl⟩

/-- **The names make no difference to the cache or to the budget.** -/
theorem perform_base (c : NamedCache σ α) (w : Workspace σ α) (op : Operation) :
    (c.perform w op).1.base = (op.base? c).elim c.base (fun o => (c.base.perform w o).1) ∧
      (c.perform w op).2.budget =
        (op.base? c).elim w.budget fun o => (c.base.perform w o).2.budget := by
  have hpin (found : Option Handle) :
      (found.elim w (w.modify · Cache.Instance.pin)).budget = w.budget := by
    cases found <;> rfl
  cases op with
  | checkout id => exact ⟨rfl, hpin _⟩
  | add h refCount =>
    obtain ⟨hbase, hworkspace⟩ := c.add_base h refCount w
    exact ⟨hbase, congrArg Workspace.budget hworkspace⟩
  | getByName name =>
    simp only [perform, Operation.base?, getByName]
    cases c.lookupName name <;> exact ⟨rfl, rfl⟩
  | checkoutByName name =>
    simp only [perform, Operation.base?, checkoutByName, getByName, hpin]
    cases c.lookupName name <;> exact ⟨rfl, rfl⟩
  | removeByName name =>
    simp only [perform, Operation.base?, removeByName]
    cases c.lookupName name <;> exact ⟨rfl, rfl⟩
  | _ => exact ⟨rfl, rfl⟩

end NamedCache

namespace Cache

/-! ## Tenants -/

/-- A cache that draws on a budget. -/
inductive Tenant : Type 1
  | plain {σ α : Type} [Cacheable α] (cache : Cache σ α)
  | named {σ α : Type} [Cacheable α] (cache : NamedCache σ α)

namespace Tenant

def name : Tenant → String
  | plain cache => cache.name
  | named cache => cache.base.name

def capacity : Tenant → Nat
  | plain cache => cache.capacity
  | named cache => cache.base.capacity

def attached : Tenant → Bool
  | plain cache => cache.attached
  | named cache => cache.base.attached

/-- Under which name a tenant is to be entered, and with which share. -/
def share (t : Tenant) : String × Nat := (t.name, t.capacity)

protected def Tidy : Tenant → Prop
  | plain cache => Cache.Tidy cache
  | named cache => Cache.Tidy cache.base

/-- Tenants that have just been created. -/
inductive New : Tenant → Prop
  | plain {σ α : Type} [Cacheable α] (name : String) (settings : Cache.Settings)
      (hook : Option (FlushHook σ α)) :
      New (.plain (newHooked name settings hook : Cache σ α))
  | named {σ α : Type} [Cacheable α] (name : String) (settings : Cache.Settings)
      (hook : Option (FlushHook σ α)) :
      New (.named (NamedCache.newHooked name settings hook : NamedCache σ α))

/-- The capacity of a tenant is entered in the budget. -/
inductive Enters : Tenant → Budget → Tenant → Budget → Prop
  | plain {σ α : Type} [Cacheable α] {c c' : Cache σ α} {w w' : Workspace σ α}
      (granted : c.attach w = .ok (c', w')) : Enters (.plain c) w.budget (.plain c') w'.budget
  | named {σ α : Type} [Cacheable α] {c c' : NamedCache σ α} {w w' : Workspace σ α}
      (granted : c.attach w = .ok (c', w')) : Enters (.named c) w.budget (.named c') w'.budget

/-- The budget cannot cover the capacity of a tenant. -/
inductive TurnedAway : Tenant → Budget → Prop
  | plain {σ α : Type} [Cacheable α] {c : Cache σ α} {w : Workspace σ α} {e : Error}
      (refused : c.attach w = .error e) : TurnedAway (.plain c) w.budget
  | named {σ α : Type} [Cacheable α] {c : NamedCache σ α} {w : Workspace σ α} {e : Error}
      (refused : c.attach w = .error e) : TurnedAway (.named c) w.budget

/-- The owner of a tenant asks something of it. -/
inductive Uses : Tenant → Budget → Tenant → Budget → Prop
  | plain {σ α : Type} [Cacheable α] (c : Cache σ α) (w : Workspace σ α) (op : Operation) :
      Uses (.plain c) w.budget (.plain (c.perform w op).1) (c.perform w op).2.budget
  | named {σ α : Type} [Cacheable α] (c : NamedCache σ α) (w : Workspace σ α)
      (op : NamedCache.Operation) :
      Uses (.named c) w.budget (.named (c.perform w op).1) (c.perform w op).2.budget

/-- A tenant is dropped. -/
inductive Leaves : Tenant → Budget → Budget → Prop
  | plain {σ α : Type} [Cacheable α] (c : Cache σ α) (w : Workspace σ α) :
      Leaves (.plain c) w.budget (c.detach w).budget
  | named {σ α : Type} [Cacheable α] (c : NamedCache σ α) (w : Workspace σ α) :
      Leaves (.named c) w.budget (c.base.detach w).budget

end Tenant

/-- **The states of a budget and of the caches that draw on it**, the latest one first.  A cache
that is created takes a name that no other one has; if it is turned away it is dropped at once. -/
inductive Tenancy (total : Nat) : Budget → List Tenant → Prop
  | opened : Tenancy total { total } []
  | entered {b b' : Budget} {live : List Tenant} {t t' : Tenant} (before : Tenancy total b live)
      (new : t.New) (fresh : t.name ∉ live.map Tenant.name) (enters : t.Enters b t' b') :
      Tenancy total b' (t' :: live)
  | turnedAway {b b' : Budget} {live : List Tenant} {t : Tenant} (before : Tenancy total b live)
      (new : t.New) (refused : t.TurnedAway b) (leaves : t.Leaves b b') : Tenancy total b' live
  | used {b b' : Budget} {front back : List Tenant} {t t' : Tenant}
      (before : Tenancy total b (front ++ t :: back)) (uses : t.Uses b t' b') :
      Tenancy total b' (front ++ t' :: back)
  | dropped {b b' : Budget} {front back : List Tenant} {t : Tenant}
      (before : Tenancy total b (front ++ t :: back)) (leaves : t.Leaves b b') :
      Tenancy total b' (front ++ back)

/-! ## One step -/

namespace Tenant

variable {b b' : Budget} {t t' : Tenant} {front back : List (String × Nat)}

theorem New.tidy (h : t.New) : t.Tidy ∧ t.attached = false := by
  cases h with
  | plain name settings hook =>
    refine ⟨tidy_newHooked name settings hook, ?_⟩
    cases hook <;> rfl
  | named name settings hook =>
    refine ⟨tidy_newHooked name settings hook, ?_⟩
    cases hook <;> rfl

theorem attach_base {σ α : Type} {c c' : NamedCache σ α} {w w' : Workspace σ α}
    (h : c.attach w = .ok (c', w')) : c.base.attach w = .ok (c'.base, w') := by
  unfold NamedCache.attach at h
  cases hbase : c.base.attach w with
  | error e =>
    rw [hbase] at h
    cases h
  | ok entered =>
    rw [hbase] at h
    cases h
    rfl

/-- Whoever enters is registered under its name, and stays as it was. -/
theorem Enters.registered (h : t.Enters b t' b') :
    b.register t.name t.capacity = .ok b' ∧ t'.share = t.share ∧ t'.attached = true ∧
      (t.Tidy → t'.Tidy) := by
  cases h with
  | plain granted =>
    obtain ⟨b', rfl, rfl, hregister⟩ := attach_eq granted
    exact ⟨hregister, rfl, rfl, fun ht => ⟨ht.toSound.congr rfl rfl, ht.size_le⟩⟩
  | @named _ _ _ c c' w w' granted =>
    obtain ⟨b', hbase, rfl, hregister⟩ := attach_eq (attach_base granted)
    refine ⟨hregister, ?_, congrArg Cache.attached hbase, fun ht => ?_⟩
    · simp only [share, name, capacity, hbase]
    · show Cache.Tidy c'.base
      rw [hbase]
      exact ⟨ht.toSound.congr rfl rfl, ht.size_le⟩

/-- Only a tenant that has been entered is struck out. -/
theorem Leaves.budget_eq (h : t.Leaves b b') :
    b' = if t.attached then b.unregister t.name else b := by
  cases h with
  | plain c w =>
    unfold detach attached
    dsimp only
    split <;> rfl
  | named c w =>
    unfold detach attached
    dsimp only
    split <;> rfl

/-- What a tenant and the budget go through together. -/
structure Follows (t : Tenant) (b : Budget) (t' : Tenant) (b' : Budget) : Prop where
  tidy : t'.Tidy
  name_eq : t'.name = t.name
  attached_eq : t'.attached = t.attached
  moves : t.attached = true → b.share? t.name = some t.capacity →
    b.Moves t.name t.capacity t'.capacity b'

theorem Uses.follows (h : t.Uses b t' b') (ht : t.Tidy) : t.Follows b t' b' := by
  cases h with
  | plain c w op =>
    have hsettled := settled_perform ht w op
    exact ⟨(ht.perform w op).1, hsettled.name_eq, hsettled.attached_eq, hsettled.moves⟩
  | named c w op =>
    obtain ⟨hbase, hbudget⟩ := c.perform_base w op
    rw [hbudget]
    cases hop : op.base? c with
    | none =>
      rw [hop] at hbase
      refine ⟨?_, ?_, ?_, fun _ _ => ?_⟩ <;>
        simp only [Tenant.Tidy, name, attached, capacity, hbase, Option.elim]
      · exact ht
      · exact .kept
    | some o =>
      rw [hop] at hbase
      have hsettled := settled_perform ht w o
      refine ⟨?_, ?_, ?_, ?_⟩ <;>
        simp only [Tenant.Tidy, name, attached, capacity, hbase, Option.elim]
      · exact (Cache.Tidy.perform ht w o).1
      · exact hsettled.name_eq
      · exact hsettled.attached_eq
      · exact hsettled.moves

end Tenant

/-! ## A whole tenancy -/

/-- **The shares of a budget are exact.** -/
structure Budget.Exact (b : Budget) (live : List Tenant) : Prop where
  shares : b.shares.entries.Perm (live.map Tenant.share)
  used_le : b.used ≤ b.total
  tidy : ∀ t ∈ live, t.attached = true ∧ t.Tidy

namespace Budget.Exact

variable {b b' : Budget} {live front back : List Tenant} {t t' : Tenant}

theorem share? (h : b.Exact (front ++ t :: back)) : b.share? t.name = some t.capacity := by
  have hshares := h.shares
  rw [List.map_append, List.map_cons] at hshares
  exact Table.get?_of_perm hshares

theorem enter (h : b.Exact live) (ht : t.Tidy) (fresh : t.name ∉ live.map Tenant.name)
    (henters : t.Enters b t' b') : b'.Exact (t' :: live) ∧ b'.total = b.total := by
  obtain ⟨hregister, hshare, hattached, htidy⟩ := henters.registered
  have hnew : b.share? t.name = none := by
    refine Option.eq_none_iff_forall_ne_some.2 fun n hn => fresh ?_
    have hkey := Table.mem_keys_of_get? hn
    have hkeys := (h.shares.map (·.1)).mem_iff.1 hkey
    rwa [List.map_map] at hkeys
  obtain ⟨hroom, rfl⟩ := Budget.register_eq hnew hregister
  have hperm : (b.setShare t.name t.capacity).shares.entries.Perm
      (t.share :: live.map Tenant.share) :=
    (Table.perm_insert_new hnew t.capacity).trans (h.shares.cons t.share)
  refine ⟨⟨?_, ?_, ?_⟩, rfl⟩
  · rwa [List.map_cons, hshare]
  · have hused := Budget.used_eq hperm
    have hold := Budget.used_eq h.shares
    have hle := h.used_le
    rw [List.map_cons, List.foldr_cons, ← hold] at hused
    unfold Budget.remaining at hroom
    show (b.setShare t.name t.capacity).used ≤ b.total
    simp only [Tenant.share] at hused
    omega
  · exact List.forall_mem_cons.2 ⟨⟨hattached, htidy ht⟩, h.tidy⟩

theorem use (h : b.Exact (front ++ t :: back)) (huses : t.Uses b t' b') :
    b'.Exact (front ++ t' :: back) ∧ b'.total = b.total := by
  have hmem : t ∈ front ++ t :: back := List.mem_append_right _ List.mem_cons_self
  obtain ⟨hattached, htidy⟩ := h.tidy t hmem
  have hfollows := huses.follows htidy
  have hshares := h.shares
  rw [List.map_append, List.map_cons] at hshares
  obtain ⟨hshares', hused, htotal⟩ :=
    (hfollows.moves hattached h.share?).follows hshares h.used_le
  refine ⟨⟨?_, hused, fun s hs => ?_⟩, htotal⟩
  · rw [List.map_append, List.map_cons]
    simp only [Tenant.share, hfollows.name_eq] at hshares' ⊢
    exact hshares'
  · rcases List.mem_append.1 hs with hs | hs
    · exact h.tidy s (List.mem_append_left _ hs)
    rcases List.mem_cons.1 hs with rfl | hs
    · exact ⟨hfollows.attached_eq.trans hattached, hfollows.tidy⟩
    · exact h.tidy s (List.mem_append_right _ (List.mem_cons_of_mem _ hs))

theorem leave (h : b.Exact (front ++ t :: back)) (hleaves : t.Leaves b b') :
    b'.Exact (front ++ back) ∧ b'.total = b.total := by
  have hmem : t ∈ front ++ t :: back := List.mem_append_right _ List.mem_cons_self
  rw [hleaves.budget_eq, (h.tidy t hmem).1, if_pos rfl]
  have hshares := h.shares
  rw [List.map_append, List.map_cons] at hshares
  have hshares' : (b.unregister t.name).shares.entries.Perm
      (front.map Tenant.share ++ back.map Tenant.share) := Table.perm_erase hshares
  refine ⟨⟨?_, ?_, fun s hs => ?_⟩, rfl⟩
  · rwa [List.map_append]
  · have hold := Budget.used_eq_add hshares
    have hnew := Budget.used_eq hshares'
    have hle := h.used_le
    show (b.unregister t.name).used ≤ b.total
    omega
  · rcases List.mem_append.1 hs with hs | hs
    · exact h.tidy s (List.mem_append_left _ hs)
    · exact h.tidy s (List.mem_append_right _ (List.mem_cons_of_mem _ hs))

end Budget.Exact

namespace Tenancy

variable {total : Nat} {b : Budget} {live : List Tenant}

theorem keeps_exact (h : Tenancy total b live) : b.Exact live ∧ b.total = total := by
  induction h with
  | opened => exact ⟨⟨.nil, Nat.zero_le _, fun t ht => by cases ht⟩, rfl⟩
  | entered before new fresh enters ih =>
    obtain ⟨hexact, htotal⟩ := ih.1.enter new.tidy.1 fresh enters
    exact ⟨hexact, htotal.trans ih.2⟩
  | turnedAway before new refused leaves ih =>
    rw [leaves.budget_eq, new.tidy.2]
    exact ih
  | used before uses ih =>
    obtain ⟨hexact, htotal⟩ := ih.1.use uses
    exact ⟨hexact, htotal.trans ih.2⟩
  | dropped before leaves ih =>
    obtain ⟨hexact, htotal⟩ := ih.1.leave leaves
    exact ⟨hexact, htotal.trans ih.2⟩

/-- **The accounts are exact after every operation.**  The budget has one share for each cache that
lives and none besides, each share is the capacity of its cache at that moment, and all of them
are within the total, which never changes. -/
theorem shares_exact (h : Tenancy total b live) :
    b.shares.entries.Perm (live.map fun t => (t.name, t.capacity)) ∧
      (live.map Tenant.name).Nodup ∧ (∀ t ∈ live, t.attached = true) ∧
      b.used = (live.map Tenant.capacity).foldr (· + ·) 0 ∧ b.used ≤ total ∧ b.total = total := by
  obtain ⟨hexact, htotal⟩ := h.keeps_exact
  have hnames := (hexact.shares.map (·.1)).nodup_iff.1 b.shares.keys_nodup
  have hused := Budget.used_eq hexact.shares
  rw [List.map_map] at hnames hused
  exact ⟨hexact.shares, hnames, fun t ht => (hexact.tidy t ht).1, hused,
    htotal ▸ hexact.used_le, htotal⟩

/-- A workspace in which only the budget matters. -/
def sharing (b : Budget) : Workspace Store Record := { budget := b, outside := {} }

/-- Three caches share a budget of four, a fourth one is turned away, one is dropped, and another
takes over what that leaves. -/
theorem shares_exact_two : ∃ b live, Tenancy 4 b live ∧
    live.map Tenant.share = [("collections", 1), ("objects", 3)] ∧
    b.shares.entries.Perm [("collections", 1), ("objects", 3)] ∧ b.used ≤ 4 := by
  have start : Tenancy 4 { total := 4 } [] := .opened
  have scratch := start.entered (.plain "scratch" { capacity := 1 } (some Store.flushHook))
    (by decide) (.plain (w := sharing _) rfl)
  have objects := scratch.entered (.plain "objects" { capacity := 2 } (some Store.flushHook))
    (by decide) (.plain (w := sharing _) rfl)
  have collections := objects.entered
    (.named "collections" { capacity := 1 } (some Store.flushHook))
    (by decide) (.named (w := sharing _) rfl)
  have refused := collections.turnedAway
    (.plain "blobs" { capacity := 1 } (some Store.flushHook))
    (.plain (w := sharing _) rfl) (.plain _ (sharing _))
  have dropped : Tenancy 4 _ ([_, _] ++ []) := .dropped refused (.plain _ (sharing _))
  have resized : Tenancy 4 _ ([_] ++ _ :: []) := .used dropped (.plain _ (sharing _) (.resize 3))
  have hshares := resized.shares_exact
  exact ⟨_, _, resized, rfl, hshares.1, hshares.2.2.2.2.1⟩

end Tenancy

end Cache
end Folio
