import Folio.Proofs.Database.Steps
import Folio.Proofs.Transaction.Ledger

/-! # Sessions on a database

A session is a database together with the transactions that were begun on it.  An `Action`
is what a client, or the memory management, does next; any order of actions is possible,
by any number of clients, since every action is one indivisible operation.  What an action
on transactions does to the collections is to change their locks (`Relocked`).
-/
namespace Folio

open Cache (Handle Instance Pool)
open Transaction (After Ticket)
open Holdings

/-! ## Actions -/

/-- A change that is made to a collection. -/
inductive Mutation where
  | addChild (child : String)
  | removeChild (child : String)
  | addEntry (entry : Entry)
  | removeEntry (id : ObjectId)
  | setPermissions (permissions : UInt32)
deriving DecidableEq, Repr

def Mutation.apply (m : Mutation) (c : Collection) : Collection :=
  match m with
  | addChild child => (Collection.addChild c child).2
  | removeChild child => (Collection.removeChild c child).2
  | addEntry entry => (Collection.addEntry c entry).2
  | removeEntry id => (Collection.removeEntry c id).2
  | setPermissions permissions => Collection.setPermissions c permissions

/-- **A change that is made to a record marks the collection**, and leaves its identity and its
name. -/
theorem Mutation.apply_cases (m : Mutation) (c : Collection) :
    m.apply c = c ∨
      ∃ r : Record, m.apply c = Collection.change c r ∧ r.id = c.content.id ∧
        r.name = c.content.name := by
  cases m with
  | addChild child =>
    obtain ⟨-, -, -, -, hafter⟩ := Collection.addChild_spec c child
    by_cases hchild : child ∈ c.content.children
    · exact Or.inl (hafter.trans (if_pos hchild))
    · exact Or.inr ⟨_, hafter.trans (if_neg hchild), rfl, rfl⟩
  | removeChild child =>
    obtain ⟨-, -, hafter⟩ := Collection.removeChild_spec c child
    by_cases hchild : child ∈ c.content.children
    · exact Or.inr ⟨_, hafter.trans (if_pos hchild), rfl, rfl⟩
    · exact Or.inl (hafter.trans (if_neg hchild))
  | addEntry entry =>
    rcases Collection.addEntry_spec c entry with ⟨_, _, _, -, -, -, hadded⟩ | ⟨-, hadded⟩
    · exact Or.inr ⟨_, congrArg Prod.snd hadded, rfl, rfl⟩
    · exact Or.inr ⟨_, congrArg Prod.snd hadded, rfl, rfl⟩
  | removeEntry id =>
    rcases Collection.removeEntry_spec c id with ⟨_, _, _, -, -, -, hremoved⟩ | ⟨-, hremoved⟩
    · exact Or.inr ⟨_, congrArg Prod.snd hremoved, rfl, rfl⟩
    · exact Or.inl (congrArg Prod.snd hremoved)
  | setPermissions permissions =>
    exact Or.inr ⟨_, (Collection.setPermissions_spec c permissions).2, rfl, rfl⟩

/-- The ways in which a transaction finishes. -/
inductive Finish where
  | commit | abort | close | drop
deriving DecidableEq, Repr

/-- A transaction finishes, or refuses to. -/
def Database.finish {τ : Type} (d : Database) (t : Transaction τ) :
    Finish → Except Transaction.Error (After Database τ)
  | .commit => d.commit t
  | .abort => d.abort t
  | .close => d.close t
  | .drop => .ok (d.drop t)

structure Session (τ : Type) where
  database : Database
  /-- The transactions in the order in which they were begun. -/
  transactions : List (Transaction τ) := []

inductive Action where
  | create (id : ObjectId) (name : String)
  | openById (id : ObjectId)
  | openByName (name : String)
  | release (h : Handle)
  | mutate (h : Handle) (m : Mutation)
  | begin
  /-- The transaction with number `n` acquires a lock, at the moment at which it gets it or is
  refused.  If it has to wait first, that is the end of its wait. -/
  | lock (n : Nat) (h : Handle) (mode : Lock.Mode)
  | finish (n : Nat) (how : Finish)
  /-- Acquires that wait for a lock come and go. -/
  | waiting (h : Handle) (writers : Nat)
  | flushDirty
  | evict
  | resize (capacity : Nat)
  | setReadOnly (readOnly : Bool)
deriving DecidableEq, Repr

namespace Session

variable {τ : Type}

/-- The session after an action.  What is refused, and an acquire that would have to wait, leaves
it as it is. -/
def perform (s : Session τ) : Action → Session τ
  | .create id name => { s with database := (s.database.create id name).2 }
  | .openById id => { s with database := (s.database.openById id).2 }
  | .openByName name => { s with database := (s.database.openByName name).2 }
  | .release h => { s with database := s.database.release h }
  | .mutate h m => { s with database := s.database.modify h m.apply }
  | .begin =>
    match s.database.begin with
    | .ok (t, d) => { database := d, transactions := s.transactions ++ [t] }
    | .error _ => s
  | .lock n h mode =>
    match s.transactions[n]? with
    | none => s
    | some t =>
      match s.database.lockCollection t h mode with
      | some (.ok (t, d)) => { database := d, transactions := s.transactions.set n t }
      | _ => s
  | .finish n how =>
    match s.transactions[n]? with
    | none => s
    | some t =>
      match s.database.finish t how with
      | .ok after =>
        { database := after.locks, transactions := s.transactions.set n after.transaction }
      | .error _ => s
  | .waiting h writers =>
    { s with database := s.database.modify h fun c =>
        c.setLock { c.lock with waitingWriters := writers } }
  | .flushDirty => { s with database := s.database.flushDirty.2 }
  | .evict => { s with database := s.database.evict }
  | .resize capacity => { s with database := s.database.resize capacity }
  | .setReadOnly readOnly =>
    { s with database := s.database.setStore { s.database.store with readOnly } }

/-! ## Actions on transactions -/

/-- A transaction begins with an empty ledger. -/
theorem perform_begin (s : Session τ) :
    s.perform .begin = s ∨
      ∃ t registry, t.ledger = [] ∧
        s.perform .begin =
          { database := { s.database with registry }, transactions := s.transactions ++ [t] } := by
  unfold perform Database.begin Registry.start
  cases s.database.registry.shutDown with
  | true => exact Or.inl rfl
  | false => exact Or.inr ⟨_, _, rfl, rfl⟩

/-- **A lock is acquired and entered**, or nothing happens. -/
theorem perform_lock (s : Session τ) (n : Nat) (h : Handle) (mode : Lock.Mode) :
    s.perform (.lock n h mode) = s ∨
      ∃ t lock lock', s.transactions[n]? = some t ∧
        LockSpace.lock? s.database h = some lock ∧ lock.tryAcquire mode = some lock' ∧
        s.perform (.lock n h mode) =
          { database := LockSpace.setLock s.database h lock'
            transactions :=
              s.transactions.set n { t with ledger := t.ledger ++ [⟨h, mode⟩] } } := by
  unfold perform
  cases ht : s.transactions[n]? with
  | none => exact Or.inl (by simp only [ht])
  | some t =>
    unfold Database.lockCollection
    rcases hacq : t.acquire ⟨h, mode⟩ s.database with _ | e | ⟨t', d'⟩
    · exact Or.inl (by simp [ht, hacq])
    · exact Or.inl (by simp [ht, hacq, Except.mapError])
    · obtain ⟨lock, lock', hl, hgrant, rfl, rfl⟩ := Transaction.acquire_ok hacq
      refine Or.inr ⟨t, lock, lock', rfl, hl, hgrant, ?_⟩
      simp [ht, hacq, Except.mapError]

/-- What finishing comes to where it is not refused. -/
theorem finished_of_finish {d : Database} {t : Transaction τ} {how : Finish}
    {after : After Database τ} (h : d.finish t how = .ok after) :
    ∃ before, Transaction.Finished t d before ∧ after = Database.follow t before := by
  have hmap (run : Except Transaction.Error (After Database τ))
      (hrun : run.map (Database.follow t) = .ok after) :
      ∃ before, run = .ok before ∧ after = Database.follow t before := by
    cases run with
    | error e => cases hrun
    | ok before =>
      cases hrun
      exact ⟨before, rfl, rfl⟩
  cases how with
  | commit =>
    obtain ⟨before, hrun, rfl⟩ := hmap _ h
    exact ⟨before, Transaction.finished_of_commit hrun, rfl⟩
  | abort =>
    obtain ⟨before, hrun, rfl⟩ := hmap _ h
    exact ⟨before, Transaction.finished_of_abort hrun, rfl⟩
  | close =>
    obtain ⟨before, hrun, rfl⟩ := hmap _ h
    exact ⟨before, Transaction.finished_of_close hrun, rfl⟩
  | drop =>
    cases h
    exact ⟨_, Transaction.finished_drop t d, rfl⟩

/-- **A transaction finishes**, or nothing happens. -/
theorem perform_finish (s : Session τ) (n : Nat) (how : Finish) :
    s.perform (.finish n how) = s ∨
      ∃ t after registry, s.transactions[n]? = some t ∧
        Transaction.Finished t s.database after ∧
        s.perform (.finish n how) =
          { database := { after.locks with registry }
            transactions := s.transactions.set n after.transaction } := by
  unfold perform
  cases ht : s.transactions[n]? with
  | none => exact Or.inl (by simp only [ht])
  | some t =>
    cases hrun : s.database.finish t how with
    | error e => exact Or.inl (by simp only [ht, hrun])
    | ok after =>
      obtain ⟨before, hf, rfl⟩ := finished_of_finish hrun
      refine Or.inr ⟨t, before, before.locks.registry.follow t before.transaction, rfl, hf, ?_⟩
      simp only [ht, hrun, Database.follow]

end Session

/-! ## Locks in memory -/

/-- Only locks have changed. -/
structure Holdings.Relocked (H H' : Holdings) : Prop where
  entry : H'.entry = H.entry
  store : H'.store = H.store
  loaded : ∀ h, (H'.pool.get? h).map (·.setLock {}) = (H.pool.get? h).map (·.setLock {})

section
variable {H H₁ H' : Holdings}

theorem Holdings.Relocked.refl (H : Holdings) : Relocked H H := ⟨rfl, rfl, fun _ => rfl⟩

theorem Holdings.Relocked.trans (h₁ : Relocked H H₁) (h₂ : Relocked H₁ H') : Relocked H H' :=
  ⟨h₂.entry.trans h₁.entry, h₂.store.trans h₁.store,
    fun h => (h₂.loaded h).trans (h₁.loaded h)⟩

/-- An instance is there as before, under some lock. -/
theorem Holdings.Relocked.get? (hr : Relocked H H') {h : Handle} {c : Collection}
    (hc : H.pool.get? h = some c) : ∃ lock, H'.pool.get? h = some (c.setLock lock) := by
  have hsame := hr.loaded h
  rw [hc] at hsame
  obtain ⟨c', hc', heq⟩ := Option.map_eq_some_iff.1 hsame
  refine ⟨c'.lock, hc'.trans (congrArg some ?_)⟩
  calc c' = (c'.setLock {}).setLock c'.lock := rfl
    _ = (c.setLock {}).setLock c'.lock := by rw [heq]
    _ = c.setLock c'.lock := rfl

theorem Holdings.relocked_alter (H : Holdings) (h : Handle) {f : Collection → Collection}
    (hf : ∀ c, (f c).setLock {} = c.setLock {}) : Relocked H (H.alter h f) := by
  refine ⟨rfl, rfl, fun k => ?_⟩
  simp only [alter, Pool.get?_modify]
  split
  · rw [Option.map_map]
    exact congrArg (Option.map · (H.pool.get? k)) (funext hf)
  · rfl

end

instance : LawfulLockSpace Database where
  lock?_setLock d n k lock := by
    show ((d.workspace.pool.modify n (·.setLock lock)).get? k).map (·.lock) = _
    rw [Pool.get?_modify]
    split
    · rw [Option.map_map]
      show _ = ((d.workspace.pool.get? k).map (·.lock)).map fun _ => lock
      rw [Option.map_map]
      rfl
    · rfl

namespace Database

variable {τ : Type}

theorem relocked_setLock (d : Database) (n : Nat) (lock : Lock) :
    Relocked d.holdings (LockSpace.setLock d n lock).holdings ∧
      (LockSpace.setLock d n lock).cache = d.cache :=
  ⟨relocked_alter d.holdings n fun _ => rfl, rfl⟩

theorem relocked_releaseEach (d : Database) (tickets : List Ticket) :
    Relocked d.holdings (Transaction.releaseEach (τ := τ) d tickets).2.holdings ∧
      (Transaction.releaseEach (τ := τ) d tickets).2.cache = d.cache := by
  induction tickets generalizing d with
  | nil => exact ⟨.refl _, rfl⟩
  | cons ticket tickets ih =>
    have hfirst : Relocked d.holdings (Transaction.releaseOne (τ := τ) d ticket).2.holdings ∧
        (Transaction.releaseOne (τ := τ) d ticket).2.cache = d.cache := by
      unfold Transaction.releaseOne
      split
      · exact relocked_setLock d ticket.lock _
      · exact ⟨.refl _, rfl⟩
    obtain ⟨hothers, hcache⟩ := ih (Transaction.releaseOne (τ := τ) d ticket).2
    exact ⟨hfirst.1.trans hothers, hcache.trans hfirst.2⟩

/-- A transaction that finishes changes nothing of the collections but their locks. -/
theorem relocked_of_finished {t : Transaction τ} {d : Database} {after : After Database τ}
    (hf : Transaction.Finished t d after) :
    Relocked d.holdings after.locks.holdings ∧ after.locks.cache = d.cache := by
  cases hf with
  | released empty given =>
    rw [given]
    exact relocked_releaseEach d t.ledger.reverse
  | unchanged same untouched =>
    rw [untouched]
    exact ⟨.refl _, rfl⟩

end Database

/-! ## What actions keep -/

/-- The actions that concern locks only. -/
def Action.OnLocks : Action → Prop
  | .begin | .lock .. | .finish .. | .waiting .. => True
  | _ => False

namespace Session

variable {τ : Type}

theorem relocked_perform (s : Session τ) {a : Action} (ha : a.OnLocks) :
    Relocked s.database.holdings (s.perform a).database.holdings ∧
      (s.perform a).database.cache = s.database.cache := by
  cases a with
  | begin =>
    rcases s.perform_begin with hsame | ⟨t, registry, -, hbegin⟩
    · rw [hsame]
      exact ⟨.refl _, rfl⟩
    · rw [hbegin]
      exact ⟨.refl _, rfl⟩
  | lock n h mode =>
    rcases s.perform_lock n h mode with hsame | ⟨t, lock, lock', -, -, -, hlock⟩
    · rw [hsame]
      exact ⟨.refl _, rfl⟩
    · rw [hlock]
      exact s.database.relocked_setLock h lock'
  | finish n how =>
    rcases s.perform_finish n how with hsame | ⟨t, after, registry, -, hf, hfinish⟩
    · rw [hsame]
      exact ⟨.refl _, rfl⟩
    · rw [hfinish]
      exact Database.relocked_of_finished hf
  | waiting h writers => exact ⟨relocked_alter _ h fun _ => rfl, rfl⟩
  | _ => exact ha.elim

/-- The cache writes back to the store and is in operation as long as the session lasts. -/
theorem wired_perform {s : Session τ} (hd : s.database.Wired) (a : Action) :
    (s.perform a).database.Wired := by
  cases a with
  | create id name =>
    obtain ⟨_, -, -, hwired⟩ := Database.create_brought hd id name
    exact hwired
  | openById id => exact (Database.openById_opened hd id).2
  | openByName name => exact (Database.openByName_opened hd name).2
  | release h => exact hd.of_cache rfl
  | mutate h m => exact hd.of_cache rfl
  | begin => exact hd.of_cache (s.relocked_perform (a := .begin) trivial).2
  | lock n h mode => exact hd.of_cache (s.relocked_perform (a := .lock n h mode) trivial).2
  | finish n how => exact hd.of_cache (s.relocked_perform (a := .finish n how) trivial).2
  | waiting h writers => exact hd.of_cache rfl
  | flushDirty =>
    obtain ⟨hs, -, -, hcache⟩ := s.database.flushDirty_flushed
    exact hd.of_cache hcache
  | evict => exact (Database.evict_sheds hd).2
  | resize capacity => exact (Database.resize_sheds hd capacity).2
  | setReadOnly readOnly => exact hd.of_cache rfl

/-- A database with room for one collection. -/
def narrow : Settings := { cache := { capacity := 1, maxCapacity := 1 } }

def narrowDatabase : Database := (Database.new narrow {}).toOption.get (by decide)

theorem new_narrow : Database.new narrow {} = .ok narrowDatabase := rfl

end Session
end Folio
