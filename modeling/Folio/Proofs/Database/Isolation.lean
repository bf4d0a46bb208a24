import Folio.Proofs.Database.Holds

/-! # Transactions that exclude one another

On one instance of a collection the transactions of any session exclude one another, because
the tickets in all ledgers account for its lock.  A collection may be in memory more than
once, though, and each of its instances has a lock of its own: two transactions can hold
different instances (`conflict_after_eviction`, `conflict_after_replacement`,
`conflict_on_former_instance`, `conflict_on_misfiled_record`).  **`Run.isolated`** says what
clients have to do so that this never happens: pin what they read, create nothing that is
held, and get no lock of an instance that is not cached.

A lock may be waited for, and the instance that was cached when the wait began may have left when it
ends.  It is the end that counts: only then there is a ticket.  Who pins an instance throughout the
wait finds it in its place (`cached_of_spares`), unless a collection was created in that place.
-/
namespace Folio

open Cache (Handle Instance Pool)
open Transaction (Accounts Balanced Ticket accounts_of_free)
open Holdings

/-- The actions on transactions. -/
def Action.OnTransactions : Action → Prop
  | .begin | .lock .. | .finish .. => True
  | _ => False

/-- They change locks only. -/
theorem Action.OnTransactions.onLocks {a : Action} (ha : a.OnTransactions) : a.OnLocks := by
  cases a with
  | begin => trivial
  | lock n h mode => trivial
  | finish n how => trivial
  | _ => exact ha.elim

namespace Session

variable {τ : Type} {s : Session τ} {h k : Handle} {a : Action} {n : Nat}

/-- The tickets in all ledgers. -/
def tickets (s : Session τ) : List Ticket := s.transactions.flatMap (·.ledger)

/-- Transaction `n` has not finished and has the ticket. -/
def Holds (s : Session τ) (n : Nat) (ticket : Ticket) : Prop :=
  ∃ t ∈ s.transactions[n]?, t.state = .started ∧ ticket ∈ t.ledger

instance (s : Session τ) (n : Nat) (ticket : Ticket) : Decidable (s.Holds n ticket) :=
  inferInstanceAs (Decidable (∃ t ∈ s.transactions[n]?, _))

/-- Of two transactions that have not finished, one has a write ticket for the first instance and
the other any ticket for the second. -/
def Conflict (s : Session τ) (h k : Handle) : Prop :=
  ∃ n m mode, n ≠ m ∧ s.Holds n ⟨h, .write⟩ ∧ s.Holds m ⟨k, mode⟩

/-- There is a conflict on a collection, between whichever of its instances. -/
def ConflictOn (s : Session τ) (id : ObjectId) : Prop :=
  ∃ h k, s.database.workspace.identity? h = some id ∧
    s.database.workspace.identity? k = some id ∧ s.Conflict h k

/-! ## The tickets account for the locks -/

/-- The tickets of one transaction and those of the others. -/
theorem tickets_perm {t : Transaction τ} (ht : s.transactions[n]? = some t) :
    s.tickets.Perm (t.ledger ++ (s.transactions.eraseIdx n).flatMap (·.ledger)) := by
  obtain ⟨hn, rfl⟩ := List.getElem?_eq_some_iff.1 ht
  exact (List.getElem_cons_eraseIdx_perm hn).symm.flatMap_right (·.ledger)

theorem tickets_set_perm {t : Transaction τ} (ht : s.transactions[n]? = some t)
    (t' : Transaction τ) (d : Database) :
    (tickets { database := d, transactions := s.transactions.set n t' }).Perm
      (t'.ledger ++ (s.transactions.eraseIdx n).flatMap (·.ledger)) := by
  obtain ⟨hn, -⟩ := List.getElem?_eq_some_iff.1 ht
  exact (List.set_perm_cons_eraseIdx hn t').flatMap_right (·.ledger)

theorem Holds.mem_tickets {ticket : Ticket} (hh : s.Holds n ticket) : ticket ∈ s.tickets := by
  obtain ⟨t, ht, -, hmem⟩ := hh
  exact List.mem_flatMap.2 ⟨t, List.mem_of_getElem? ht, hmem⟩

/-- **Transactions exclude one another on each instance**, if the tickets account for the locks. -/
theorem not_conflict_self (hb : Balanced s.database s.tickets) (h : Handle) :
    ¬s.Conflict h h := by
  rintro ⟨n, m, mode, hne, ⟨t, ht, -, hwrite⟩, ⟨u, hu, -, hother⟩⟩
  have hperm := tickets_perm ht
  have hrest : (⟨h, mode⟩ : Ticket) ∈ (s.transactions.eraseIdx n).flatMap (·.ledger) :=
    List.mem_flatMap.2 ⟨u, List.mem_eraseIdx_iff_getElem?.2 ⟨m, hne.symm, hu⟩, hother⟩
  obtain ⟨hone, hnone⟩ := hb.exclusive (hperm.mem_iff.2 (List.mem_append_left _ hwrite))
  cases mode with
  | read => exact hnone (hperm.mem_iff.2 (List.mem_append_right _ hrest))
  | write =>
    -- the ticket would be there twice, once in each ledger
    rw [hperm.count_eq, List.count_append] at hone
    have hfirst := List.count_pos_iff.2 hwrite
    have hsecond := List.count_pos_iff.2 hrest
    omega

/-- What operations on collections lead to leaves the tickets in balance. -/
theorem balanced_of_leads {held : Handle → Prop} {d d' : Database} {tickets : List Ticket}
    (hb : Balanced d tickets) (hl : Leads held d.holdings d'.holdings) : Balanced d' tickets := by
  constructor
  · intro ticket ht
    obtain ⟨lock, hlock⟩ := hb.known ticket ht
    obtain ⟨c, hc, -⟩ := Option.map_eq_some_iff.1 hlock
    obtain ⟨c', hc', -⟩ := hl.alike ticket.lock c hc
    exact ⟨c'.lock, congrArg (Option.map (·.lock)) hc'⟩
  · intro h lock' hlock
    obtain ⟨c', hc', rfl⟩ := Option.map_eq_some_iff.1 hlock
    cases hbefore : d.holdings.pool.get? h with
    | some c =>
      obtain ⟨c'', hc'', hsame⟩ := hl.alike h c hbefore
      obtain rfl : c'' = c' := Option.some.inj (hc''.symm.trans hc')
      have haccounts := hb.accounts h c.lock (congrArg (Option.map (·.lock)) hbefore)
      exact haccounts.congr hsame.readers hsame.writer
    | none =>
      -- a new instance: nobody has a ticket for a lock that did not exist
      obtain ⟨hreaders, hwriter⟩ := hl.free h c' hbefore hc'
      refine accounts_of_free hreaders hwriter fun mode hmem => ?_
      obtain ⟨lock, hknown⟩ := hb.known _ hmem
      have hnone : LockSpace.lock? d h = none := congrArg (Option.map (·.lock)) hbefore
      rw [hnone] at hknown
      cases hknown

/-! ## Actions on collections -/

/-- An action that may push instances out of the cache leaves this one in its place: it is pinned or
held for writing, and none is created there. -/
def Spares (s : Session τ) (h : Handle) : Action → Prop
  | .create id _ =>
    s.database.holdings.Guarded h ∧ s.database.cache.base.entries.get? id ≠ some h
  | .openById _ | .openByName _ => s.database.holdings.Guarded h ∧ s.database.store.Sorted
  | .evict | .resize _ => s.database.holdings.Guarded h
  | _ => True

/-- **What the other actions lead to.**  The instances that they spare keep their places. -/
theorem leads_perform (hd : s.database.Wired) (ha : ¬a.OnTransactions)
    (held : Handle → Prop) (hspares : ∀ h, held h → s.Spares h a) :
    Leads held s.database.holdings (s.perform a).database.holdings ∧
      (s.perform a).transactions = s.transactions := by
  cases a with
  | create id name =>
    obtain ⟨_, -, hbrought, -⟩ := Database.create_brought hd id name
    exact ⟨hbrought.leads rfl rfl (fun h hh => (hspares h hh).1) fun h hh => (hspares h hh).2, rfl⟩
  | openById id =>
    have hopened := (Database.openById_opened hd id).1
    exact ⟨hopened.leads (fun h hh => (hspares h hh).1) fun h hh => (hspares h hh).2, rfl⟩
  | openByName name =>
    obtain ⟨⟨id, hopened⟩ | ⟨-, hsame⟩, -⟩ := Database.openByName_opened hd name
    · exact ⟨hopened.leads (fun h hh => (hspares h hh).1) fun h hh => (hspares h hh).2, rfl⟩
    · refine ⟨?_, rfl⟩
      show Leads held _ (s.database.openByName name).2.holdings
      rw [hsame]
      exact .refl held _
  | release h =>
    refine ⟨leads_alter h fun c => ⟨congrArg (·.id) c.unpin_content, ?_, ?_⟩, rfl⟩
    · exact congrArg (·.readers) c.unpin_lock
    · exact congrArg (·.writer) c.unpin_lock
  | mutate h m =>
    refine ⟨leads_alter h fun c => ?_, rfl⟩
    rcases m.apply_cases c with hsame | ⟨r, hchange, hid, -⟩
    · rw [hsame]
      exact .refl c
    · rw [hchange]
      exact ⟨hid, rfl, rfl⟩
  | waiting h writers => exact ⟨leads_alter h fun c => ⟨rfl, rfl, rfl⟩, rfl⟩
  | flushDirty =>
    obtain ⟨hs, -, hflushed, -⟩ := s.database.flushDirty_flushed
    exact ⟨hflushed.remarked.leads, rfl⟩
  | evict => exact ⟨(Database.evict_sheds hd).1.leads hspares, rfl⟩
  | resize capacity => exact ⟨(Database.resize_sheds hd capacity).1.leads hspares, rfl⟩
  | setReadOnly readOnly =>
    exact ⟨⟨fun h c hc => ⟨c, hc, .refl c⟩, (Leads.refl held _).free, id, id, fun _ _ _ => id⟩, rfl⟩
  | begin => exact absurd trivial ha
  | lock n h mode => exact absurd trivial ha
  | finish n how => exact absurd trivial ha

/-- Actions one after another, each of which leaves an instance in its place. -/
def SparesThroughout (s : Session τ) (h : Handle) : List Action → Prop
  | [] => True
  | a :: actions => s.Spares h a ∧ (s.perform a).SparesThroughout h actions

/-- **A cached instance that is spared stays cached**, however long somebody waits for its lock. -/
theorem cached_of_spares (hd : s.database.Wired) {actions : List Action} {id : ObjectId}
    (hspares : s.SparesThroughout h actions)
    (hentry : s.database.cache.base.entries.get? id = some h) :
    (actions.foldl perform s).database.cache.base.entries.get? id = some h := by
  induction actions generalizing s with
  | nil => exact hentry
  | cons a actions ih =>
    obtain ⟨hfirst, hothers⟩ := hspares
    refine ih (wired_perform hd a) hothers ?_
    by_cases ha : a.OnTransactions
    · rw [(s.relocked_perform ha.onLocks).2]
      exact hentry
    · obtain ⟨hl, -⟩ := leads_perform (s := s) hd ha (· = h) fun k hk => hk ▸ hfirst
      exact hl.stays h id rfl hentry

/-- **Every action keeps the tickets in balance with the locks.** -/
theorem balanced_perform (hd : s.database.Wired) (hb : Balanced s.database s.tickets)
    (a : Action) : Balanced (s.perform a).database (s.perform a).tickets := by
  by_cases ha : a.OnTransactions
  · cases a with
    | begin =>
      rcases s.perform_begin with hsame | ⟨t, registry, hempty, hbegin⟩
      · rw [hsame]
        exact hb
      · have htickets : (s.perform .begin).tickets = s.tickets := by
          rw [hbegin]
          simp only [tickets, List.flatMap_append, List.flatMap_cons, List.flatMap_nil, hempty,
            List.append_nil]
        rw [htickets, hbegin]
        exact ⟨hb.known, hb.accounts⟩
    | lock n h mode =>
      rcases s.perform_lock n h mode with hsame | ⟨t, lock, lock', ht, hl, hacq, hlock⟩
      · rw [hsame]
        exact hb
      · rw [hlock]
        -- the new ticket ends its ledger, and stands in front of all tickets here
        refine (hb.acquire hl hacq).perm ?_
        have hbefore := (tickets_perm ht).cons (⟨h, mode⟩ : Ticket)
        refine hbefore.trans (List.Perm.trans ?_ (tickets_set_perm ht _ _).symm)
        rw [List.append_assoc]
        exact List.perm_middle.symm
    | finish n how =>
      rcases s.perform_finish n how with hsame | ⟨t, after, registry, ht, hf, hfinish⟩
      · rw [hsame]
        exact hb
      · rw [hfinish]
        have hafter := tickets_set_perm ht after.transaction { after.locks with registry }
        have hbefore := hb.perm (tickets_perm ht)
        cases hf with
        | released empty given =>
          rw [empty, List.nil_append] at hafter
          -- the ledger is given back from its end
          have hordered := hbefore.perm (t.ledger.reverse_perm.symm.append_right _)
          have hreleased := hordered.releaseEach (τ := τ) t.ledger.reverse
          rw [← given] at hreleased
          exact Balanced.perm ⟨hreleased.known, hreleased.accounts⟩ hafter.symm
        | unchanged same untouched =>
          rw [same] at hafter
          rw [← untouched] at hbefore
          exact Balanced.perm ⟨hbefore.known, hbefore.accounts⟩ hafter.symm
    | _ => exact ha.elim
  · obtain ⟨hl, htransactions⟩ := leads_perform (s := s) hd ha (fun _ => False) fun _ h => h.elim
    unfold tickets
    rw [htransactions]
    exact balanced_of_leads hb hl

/-! ## Places in the cache -/

/-- Every instance that is held for reading is pinned. -/
def Pinned (s : Session τ) : Prop :=
  ∀ h c, (⟨h, .read⟩ : Ticket) ∈ s.tickets → s.database.collection? h = some c → c.refCount ≠ 0

/-- Transaction `n` gets the lock now, be it at once or at the end of a wait. -/
def Grants (s : Session τ) (n : Nat) (h : Handle) (mode : Lock.Mode) : Prop :=
  ∃ t ∈ s.transactions[n]?, ∃ granted, s.database.lockCollection t h mode = some (.ok granted)

theorem perform_lock_of_not_grants {mode : Lock.Mode} (hgrants : ¬s.Grants n h mode) :
    s.perform (.lock n h mode) = s := by
  unfold perform
  cases ht : s.transactions[n]? with
  | none => simp only [ht]
  | some t =>
    cases hlock : s.database.lockCollection t h mode with
    | none => simp only [ht, hlock]
    | some result =>
      cases result with
      | error e => simp only [ht, hlock]
      | ok granted => exact absurd ⟨t, ht, granted, hlock⟩ hgrants

/-- **What clients have to see to.**  While an instance may be pushed out of the cache, those that
are held for reading are pinned; no collection is created whose cached instance is held; and
whenever a lock is granted, its instance is cached at that moment. -/
def Disciplined (s : Session τ) : Action → Prop
  | .create id _ =>
    s.Pinned ∧ ∀ ticket ∈ s.tickets, s.database.cache.base.entries.get? id ≠ some ticket.lock
  | .openById _ | .openByName _ | .evict | .resize _ => s.Pinned
  | .lock n h mode => s.Grants n h mode → ∃ id, s.database.cache.base.entries.get? id = some h
  | _ => True

/-- **Every instance that is held is the cached one**, and has the identity it is cached under. -/
structure Anchored (s : Session τ) : Prop where
  filed : s.database.holdings.Filed
  sorted : s.database.store.Sorted
  cached : ∀ ticket ∈ s.tickets, ∃ id, s.database.cache.base.entries.get? id = some ticket.lock

/-- **Transactions exclude one another on each collection**, if what they hold is cached: an
identity has one cached instance. -/
theorem Anchored.not_conflictOn (ha : s.Anchored) (hb : Balanced s.database s.tickets)
    (id : ObjectId) : ¬s.ConflictOn id := by
  have hplace (j : Handle) (hid : s.database.workspace.identity? j = some id)
      (hcached : ∃ i, s.database.cache.base.entries.get? i = some j) :
      s.database.cache.base.entries.get? id = some j := by
    obtain ⟨i, hentry⟩ := hcached
    obtain ⟨c, hc, hci⟩ := ha.filed i j hentry
    obtain ⟨c', hc', hcid⟩ := Option.map_eq_some_iff.1 hid
    obtain rfl : c = c' := Option.some.inj (hc.symm.trans hc')
    have hsame : i = id := hci.symm.trans hcid
    rw [← hsame]
    exact hentry
  rintro ⟨h, k, hh, hk, hconflict⟩
  have hwho := hconflict
  obtain ⟨n, m, mode, -, hwrite, hother⟩ := hwho
  have hfirst := hplace h hh (ha.cached _ hwrite.mem_tickets)
  have hsecond := hplace k hk (ha.cached _ hother.mem_tickets)
  obtain rfl := Option.some.inj (hsecond.symm.trans hfirst)
  exact not_conflict_self hb k hconflict

/-- An instance that is held is guarded, by its pin or by its writer. -/
theorem guarded_of_pinned (hb : Balanced s.database s.tickets) (hp : s.Pinned) {ticket : Ticket}
    (ht : ticket ∈ s.tickets) : s.database.holdings.Guarded ticket.lock := by
  intro c hc
  obtain ⟨h, mode⟩ := ticket
  cases mode with
  | read => exact Or.inl (hp h c ht hc)
  | write => exact Or.inr (hb.writer ht (congrArg (Option.map (·.lock)) hc))

/-- Disciplined actions spare every instance that is held. -/
theorem spares_of_disciplined (hb : Balanced s.database s.tickets) (ha : s.Anchored)
    (hdisciplined : s.Disciplined a) {ticket : Ticket} (ht : ticket ∈ s.tickets) :
    s.Spares ticket.lock a := by
  cases a with
  | create id name => exact ⟨guarded_of_pinned hb hdisciplined.1 ht, hdisciplined.2 ticket ht⟩
  | openById id => exact ⟨guarded_of_pinned hb hdisciplined ht, ha.sorted⟩
  | openByName name => exact ⟨guarded_of_pinned hb hdisciplined ht, ha.sorted⟩
  | evict => exact guarded_of_pinned hb hdisciplined ht
  | resize capacity => exact guarded_of_pinned hb hdisciplined ht
  | _ => trivial

/-- A ticket that comes with an action on transactions is for the lock that is granted. -/
theorem mem_tickets_perform (ha : a.OnTransactions) {ticket : Ticket}
    (ht : ticket ∈ (s.perform a).tickets) :
    ticket ∈ s.tickets ∨
      ∃ n, a = .lock n ticket.lock ticket.mode ∧ s.Grants n ticket.lock ticket.mode := by
  cases a with
  | begin =>
    rcases s.perform_begin with hsame | ⟨t, registry, hempty, hbegin⟩
    · exact Or.inl (hsame ▸ ht)
    · rw [hbegin] at ht
      simp only [tickets, List.flatMap_append, List.flatMap_cons, List.flatMap_nil, hempty,
        List.append_nil] at ht
      exact Or.inl ht
  | lock n h mode =>
    by_cases hgrants : s.Grants n h mode
    case neg =>
      rw [perform_lock_of_not_grants hgrants] at ht
      exact Or.inl ht
    rcases s.perform_lock n h mode with hsame | ⟨t, lock, lock', hn, -, -, hlock⟩
    · exact Or.inl (hsame ▸ ht)
    · rw [hlock, (tickets_set_perm hn _ _).mem_iff, List.append_assoc] at ht
      rcases List.mem_append.1 ht with hold | hothers
      · exact Or.inl ((tickets_perm hn).mem_iff.2 (List.mem_append_left _ hold))
      · rcases List.mem_cons.1 hothers with rfl | hothers
        · exact Or.inr ⟨n, rfl, hgrants⟩
        · exact Or.inl ((tickets_perm hn).mem_iff.2 (List.mem_append_right _ hothers))
  | finish n how =>
    rcases s.perform_finish n how with hsame | ⟨t, after, registry, hn, hf, hfinish⟩
    · exact Or.inl (hsame ▸ ht)
    · left
      rw [hfinish, (tickets_set_perm hn _ _).mem_iff] at ht
      rw [(tickets_perm hn).mem_iff]
      cases hf with
      | released empty given =>
        rw [empty, List.nil_append] at ht
        exact List.mem_append_right _ ht
      | unchanged same untouched =>
        rw [same] at ht
        exact ht
  | _ => exact ha.elim

/-- **Disciplined actions leave every instance that is held in its place.** -/
theorem anchored_perform (hd : s.database.Wired) (hb : Balanced s.database s.tickets)
    (ha : s.Anchored) (hdisciplined : s.Disciplined a) : (s.perform a).Anchored := by
  by_cases hon : a.OnTransactions
  -- only locks change, and a new ticket is for a cached instance by discipline
  · obtain ⟨hrelocked, hcache⟩ := s.relocked_perform hon.onLocks
    refine ⟨fun id h hentry => ?_, ?_, fun ticket ht => ?_⟩
    · rw [hrelocked.entry] at hentry
      obtain ⟨c, hc, hid⟩ := ha.filed id h hentry
      obtain ⟨lock, hlocked⟩ := hrelocked.get? hc
      exact ⟨c.setLock lock, hlocked, hid⟩
    · show Store.Sorted (s.perform a).database.holdings.store
      rw [hrelocked.store]
      exact ha.sorted
    · rw [hcache]
      rcases mem_tickets_perform hon ht with hold | ⟨n, rfl, hgrants⟩
      · exact ha.cached ticket hold
      · exact hdisciplined hgrants
  -- no tickets come, and those that are out are spared
  · obtain ⟨hl, htransactions⟩ := leads_perform (s := s) hd hon
      (fun h => ∃ mode, (⟨h, mode⟩ : Ticket) ∈ s.tickets)
      fun h ⟨mode, ht⟩ => spares_of_disciplined hb ha hdisciplined ht
    refine ⟨hl.filed ha.filed, hl.sorted ha.sorted, fun ticket ht => ?_⟩
    have hbefore : ticket ∈ s.tickets := by
      unfold tickets at ht
      rwa [htransactions] at ht
    obtain ⟨id, hentry⟩ := ha.cached ticket hbefore
    exact ⟨id, hl.stays ticket.lock id ⟨ticket.mode, hbefore⟩ hentry⟩

/-! ## Runs -/

/-- **A session on a new database**, of any number of clients whose actions are `allowed`. -/
inductive Run (settings : Settings) (store : Store) (allowed : Session τ → Action → Prop) :
    Session τ → Prop
  | start {d : Database} (fresh : Database.new settings store = .ok d) :
      Run settings store allowed { database := d }
  | step {s : Session τ} (before : Run settings store allowed s) (a : Action)
      (admitted : allowed s a) : Run settings store allowed (s.perform a)

section
variable {settings : Settings} {store : Store} {allowed : Session τ → Action → Prop}

theorem Run.balanced (run : Run settings store allowed s) :
    s.database.Wired ∧ Balanced s.database s.tickets := by
  induction run with
  | start fresh =>
    obtain ⟨hd, hholdings⟩ := Database.new_ok fresh
    refine ⟨hd, fun ticket ht => ?_, fun h lock hl => ?_⟩
    · cases ht
    · obtain ⟨c, hc, -⟩ := Option.map_eq_some_iff.1 hl
      have hnone : (Pool.get? {} h : Option Collection) = some c := by
        rw [← hc]
        exact congrArg (·.pool.get? h) hholdings.symm
      cases hnone
  | step before a admitted ih => exact ⟨wired_perform ih.1 a, balanced_perform ih.1 ih.2 a⟩

theorem Run.anchored (run : Run settings store allowed s) (hstore : store.Sorted)
    (hallowed : ∀ s a, allowed s a → s.Disciplined a) : s.Anchored := by
  induction run with
  | start fresh =>
    obtain ⟨-, hholdings⟩ := Database.new_ok fresh
    refine ⟨fun id h hentry => ?_, ?_, fun ticket ht => by cases ht⟩
    · rw [hholdings] at hentry
      cases hentry
    · show Store.Sorted (Database.holdings _).store
      rw [hholdings]
      exact hstore
  | step before a admitted ih =>
    obtain ⟨hd, hb⟩ := before.balanced
    exact anchored_perform hd hb ih (hallowed _ a admitted)

/-- **Transactions exclude one another.**  On one instance of a collection they always do; and on
all instances of a collection, if records are stored under their own identities and clients
are disciplined.  What they are asked for when a lock is granted they can see to when they begin to
wait: an instance that is cached then is cached at the end of the wait, if everything that happens
in between spares it. -/
theorem Run.isolated (run : Run settings store allowed s) :
    (∀ h, ¬s.Conflict h h) ∧
    (store.Sorted → (∀ s a, allowed s a → s.Disciplined a) → ∀ id, ¬s.ConflictOn id) ∧
    ∀ h id actions, s.database.cache.base.entries.get? id = some h →
      s.SparesThroughout h actions →
        (actions.foldl perform s).database.cache.base.entries.get? id = some h := by
  obtain ⟨hd, hb⟩ := run.balanced
  refine ⟨not_conflict_self hb, fun hstore hallowed id => ?_,
    fun h id actions hentry hspares => cached_of_spares hd hspares hentry⟩
  exact (run.anchored hstore hallowed).not_conflictOn hb id

/-- Where everything is allowed, any actions make a run. -/
theorem Run.each (run : Run settings store (fun _ _ => True) s) (actions : List Action) :
    Run settings store (fun _ _ => True) (actions.foldl perform s) := by
  induction actions generalizing s with
  | nil => exact run
  | cons a actions ih => exact ih (run.step a trivial)

end

/-- A disciplined session in which a collection is in memory twice: only the instance that was
loaded last is locked, by one transaction while the other waits and an eviction is tried, and then
by the other. -/
theorem isolated_after_eviction :
    let s₀ : Session Unit := { database := narrowDatabase }
    let s₁ := s₀.perform (.create 1 "/db")
    let s₂ := s₁.perform (.release 0)
    let s₃ := s₂.perform .evict
    let s₄ := s₃.perform (.openById 1)
    let s₅ := ((s₄.perform .begin).perform .begin).perform (.lock 0 1 .write)
    let s₆ := (s₅.perform (.waiting 1 1)).perform (.finish 0 .commit)
    let s₇ := s₆.perform .evict
    let s := s₇.perform (.lock 1 1 .write)
    s₅.Holds 0 ⟨1, .write⟩ ∧ ¬(s₅.perform (.lock 1 1 .write)).Holds 1 ⟨1, .write⟩ ∧
      s₇.database.cache.base.entries.get? 1 = some 1 ∧ s.Holds 1 ⟨1, .write⟩ ∧
      s.database.workspace.identity? 0 = some 1 ∧
      s.database.workspace.identity? 1 = some 1 ∧ ¬s.ConflictOn 1 := by
  intro s₀ s₁ s₂ s₃ s₄ s₅ s₆ s₇ s
  have hstore : Store.Sorted {} := fun _ _ _ h => by cases h
  have hnobody (s : Session Unit) (hs : s.tickets = []) : s.Pinned := by
    intro h c ht
    rw [hs] at ht
    cases ht
  have created : Run narrow {} Disciplined s₁ :=
    (Run.start new_narrow).step _ ⟨hnobody s₀ rfl, fun _ ht => by cases ht⟩
  have evicted : Run narrow {} Disciplined s₃ :=
    (created.step (.release 0) trivial).step .evict (hnobody s₂ (by decide +kernel))
  have opened : Run narrow {} Disciplined s₄ :=
    evicted.step (.openById 1) (hnobody s₃ (by decide +kernel))
  have locked : Run narrow {} Disciplined s₅ :=
    ((opened.step .begin trivial).step .begin trivial).step (.lock 0 1 .write)
      fun _ => ⟨1, by decide +kernel⟩
  -- the second transaction waits from here on
  have hguarded : s₆.database.holdings.Guarded 1 := by
    intro c hc
    have hpins : (s₆.database.holdings.pool.get? 1).map (·.refCount) = some 1 := by decide +kernel
    rw [hc] at hpins
    have hone : c.refCount = 1 := Option.some.inj hpins
    rw [hone]
    exact Or.inl (by decide)
  have hspares : s₅.SparesThroughout 1 [.waiting 1 1, .finish 0 .commit, .evict] :=
    ⟨trivial, trivial, hguarded, trivial⟩
  have hcached : s₇.database.cache.base.entries.get? 1 = some 1 := by
    have hplace : s₅.database.cache.base.entries.get? 1 = some 1 := by decide +kernel
    have hwait : s₇ = [.waiting 1 1, .finish 0 .commit, .evict].foldl perform s₅ := rfl
    rw [hwait]
    exact locked.isolated.2.2 1 1 _ hplace hspares
  have waited : Run narrow {} Disciplined s₆ :=
    (locked.step (.waiting 1 1) trivial).step (.finish 0 .commit) trivial
  have tried : Run narrow {} Disciplined s₇ := waited.step .evict (hnobody s₆ (by decide +kernel))
  have run : Run narrow {} Disciplined s := tried.step (.lock 1 1 .write) fun _ => ⟨1, hcached⟩
  have hisolated := run.isolated.2.1 hstore (fun _ _ h => h) 1
  exact ⟨by decide +kernel, by decide +kernel, hcached, by decide +kernel, by decide +kernel,
    by decide +kernel, hisolated⟩

/-- What is held for reading without a pin is evicted, and the instance that is loaded next has a
lock of its own. -/
theorem conflict_after_eviction :
    let s : Session Unit := [.create 1 "/db", .begin, .lock 0 0 .read, .release 0, .evict,
      .openById 1, .begin, .lock 1 1 .write].foldl perform { database := narrowDatabase }
    Run narrow {} (fun _ _ => True) s ∧ s.ConflictOn 1 := by
  intro s
  have run : Run narrow {} (fun _ _ => True) s := (Run.start new_narrow).each _
  refine ⟨run, 1, 0, by decide +kernel, by decide +kernel, 1, 0, .read, by decide, ?_, ?_⟩
  · decide +kernel
  · decide +kernel

/-- A collection that is created takes the place of the one that is held. -/
theorem conflict_after_replacement :
    let s : Session Unit := [.create 1 "/db", .begin, .lock 0 0 .write, .create 1 "/db", .begin,
      .lock 1 1 .write].foldl perform { database := narrowDatabase }
    s.ConflictOn 1 :=
  ⟨1, 0, by decide, by decide, 1, 0, .write, by decide, by decide, by decide⟩

/-- An instance that has left the cache can be locked beside the cached one. -/
theorem conflict_on_former_instance :
    let s : Session Unit := [.create 1 "/db", .release 0, .evict, .openById 1, .begin,
      .lock 0 1 .write, .begin, .lock 1 0 .write].foldl perform { database := narrowDatabase }
    s.ConflictOn 1 := by
  refine ⟨1, 0, by decide +kernel, by decide +kernel, 0, 1, .write, by decide, ?_, ?_⟩
  · decide +kernel
  · decide +kernel

/-- A record that is stored under another identity takes the place of the one that is held. -/
theorem conflict_on_misfiled_record :
    let store := Store.putRaw {} 2 "/db" (Record.encode { id := 1, name := "/db" })
    ∃ d, Database.new narrow store = .ok d ∧
      let s : Session Unit := [.create 1 "/db", .begin, .lock 0 0 .write, .openById 2, .begin,
        .lock 1 1 .write].foldl perform { database := d }
      s.ConflictOn 1 := by
  refine ⟨_, rfl, 1, 0, by decide +kernel, by decide +kernel, 1, 0, .write, by decide, ?_, ?_⟩
  · decide +kernel
  · decide +kernel

end Session
end Folio
