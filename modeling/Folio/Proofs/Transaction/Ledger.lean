import Mathlib.Data.List.Perm.Basic
import Folio.Transaction.Registry

/-! # Ledgers and locks

The tickets in the ledgers of all transactions account for the locks: `Balanced` says that
a lock has one read hold for each read ticket, a write hold exactly if there is a write
ticket, and never both.  Acquiring and releasing keep the balance, in whatever order the
transactions take their turns, as long as nobody else touches the locks.
-/
namespace Folio

/-- Setting one lock changes this lock, if it exists, and no other. -/
class LawfulLockSpace (S : Type) [LockSpace S] : Prop where
  lock?_setLock : ∀ (s : S) (n k : Nat) (lock : Lock),
    LockSpace.lock? (LockSpace.setLock s n lock) k =
      if n = k then (LockSpace.lock? s k).map fun _ => lock else LockSpace.lock? s k

namespace Transaction

/-! ## One lock -/

/-- The tickets account for the holds of lock `n`. -/
structure Accounts (tickets : List Ticket) (n : Nat) (lock : Lock) : Prop where
  readers : lock.readers = tickets.count ⟨n, .read⟩
  writer : lock.writer.toNat = tickets.count ⟨n, .write⟩
  alone : lock.writer = true → lock.readers = 0

section
variable {tickets tickets' : List Ticket} {n : Nat} {lock lock' : Lock} {mode : Lock.Mode}

theorem Accounts.perm (ha : Accounts tickets n lock) (hperm : tickets.Perm tickets') :
    Accounts tickets' n lock :=
  ⟨ha.readers.trans (hperm.count_eq _), ha.writer.trans (hperm.count_eq _), ha.alone⟩

theorem Accounts.congr (ha : Accounts tickets n lock) (hr : lock'.readers = lock.readers)
    (hw : lock'.writer = lock.writer) : Accounts tickets n lock' :=
  ⟨hr.trans ha.readers, hw ▸ ha.writer, fun h => hr.trans (ha.alone (hw ▸ h))⟩

/-- A lock without holds needs no tickets. -/
theorem accounts_of_free (hr : lock.readers = 0) (hw : lock.writer = false)
    (hnone : ∀ mode, (⟨n, mode⟩ : Ticket) ∉ tickets) : Accounts tickets n lock :=
  ⟨hr.trans (List.count_eq_zero.2 (hnone .read)).symm,
    (congrArg Bool.toNat hw).trans (List.count_eq_zero.2 (hnone .write)).symm,
    fun _ => hr⟩

/-- Tickets for other locks make no difference. -/
theorem accounts_cons_of_ne {ticket : Ticket} (hne : ticket.lock ≠ n) :
    Accounts (ticket :: tickets) n lock ↔ Accounts tickets n lock := by
  have hcount (mode : Lock.Mode) :
      (ticket :: tickets).count ⟨n, mode⟩ = tickets.count ⟨n, mode⟩ := by
    refine List.count_cons_of_ne fun h => hne ?_
    rw [h]
  constructor
  · rintro ⟨hr, hw, ha⟩
    exact ⟨hr.trans (hcount .read), hw.trans (hcount .write), ha⟩
  · rintro ⟨hr, hw, ha⟩
    exact ⟨hr.trans (hcount .read).symm, hw.trans (hcount .write).symm, ha⟩

theorem Accounts.grant (ha : Accounts tickets n lock) (hacq : lock.tryAcquire mode = some lock') :
    Accounts (⟨n, mode⟩ :: tickets) n lock' := by
  unfold Lock.tryAcquire at hacq
  split at hacq
  · rename_i hadmits
    obtain rfl := Option.some.inj hacq
    have hwriter : lock.writer = false := by
      cases mode <;> simp_all [Lock.admits]
    cases mode with
    | read =>
      refine ⟨?_, ?_, fun h => ?_⟩
      · rw [List.count_cons_self, ← ha.readers]
        rfl
      · rw [List.count_cons_of_ne (by simp), ← ha.writer]
        rfl
      · exact absurd (hwriter.symm.trans h) Bool.false_ne_true
    | write =>
      have hreaders : lock.readers = 0 := by
        simp only [Lock.admits, Bool.and_eq_true, beq_iff_eq] at hadmits
        exact hadmits.2
      refine ⟨?_, ?_, fun _ => hreaders⟩
      · rw [List.count_cons_of_ne (by simp), ← ha.readers]
        rfl
      · rw [List.count_cons_self, ← ha.writer, hwriter]
        rfl
  · cases hacq

/-- A ticket is good for a release. -/
theorem Accounts.release (ha : Accounts (⟨n, mode⟩ :: tickets) n lock) :
    ∃ lock', lock.release mode = .ok lock' ∧ Accounts tickets n lock' := by
  obtain ⟨hr, hw, halone⟩ := ha
  cases mode with
  | read =>
    rw [List.count_cons_self] at hr
    rw [List.count_cons_of_ne (by simp)] at hw
    refine ⟨_, if_pos (by omega), ?_, hw, fun h => ?_⟩
    · show lock.readers - 1 = _
      omega
    · have hzero := halone h
      omega
  | write =>
    rw [List.count_cons_of_ne (by simp)] at hr
    rw [List.count_cons_self] at hw
    have hwriter : lock.writer = true := by
      cases hlock : lock.writer with
      | true => rfl
      | false => rw [hlock, Bool.toNat_false] at hw; omega
    refine ⟨_, if_pos hwriter, hr, ?_, fun h => absurd h Bool.false_ne_true⟩
    rw [hwriter, Bool.toNat_true] at hw
    show 0 = _
    omega

end

/-! ## All locks -/

variable {S τ : Type} [LockSpace S]

/-- **The locks agree with the tickets that are out.** -/
structure Balanced (locks : S) (tickets : List Ticket) : Prop where
  known : ∀ ticket ∈ tickets, ∃ lock, LockSpace.lock? locks ticket.lock = some lock
  accounts : ∀ n lock, LockSpace.lock? locks n = some lock → Accounts tickets n lock

section
variable {locks : S} {tickets tickets' : List Ticket} {ticket : Ticket} {lock lock' : Lock}

/-- In which ledger a ticket is, and where, makes no difference. -/
theorem Balanced.perm (hb : Balanced locks tickets) (hperm : tickets.Perm tickets') :
    Balanced locks tickets' :=
  ⟨fun ticket ht => hb.known ticket (hperm.mem_iff.2 ht),
    fun n lock hl => (hb.accounts n lock hl).perm hperm⟩

/-- A lock for which there is a write ticket is held for writing. -/
theorem Balanced.writer (hb : Balanced locks tickets) {n : Nat}
    (hw : (⟨n, .write⟩ : Ticket) ∈ tickets) (hl : LockSpace.lock? locks n = some lock) :
    lock.writer = true := by
  have hwriter := (hb.accounts n lock hl).writer
  have hpos : 0 < tickets.count ⟨n, .write⟩ := List.count_pos_iff.2 hw
  cases hlock : lock.writer with
  | true => rfl
  | false =>
    rw [hlock, Bool.toNat_false] at hwriter
    omega

/-- **A write ticket is the only ticket of its lock.** -/
theorem Balanced.exclusive (hb : Balanced locks tickets) {n : Nat}
    (hw : (⟨n, .write⟩ : Ticket) ∈ tickets) :
    tickets.count ⟨n, .write⟩ = 1 ∧ (⟨n, .read⟩ : Ticket) ∉ tickets := by
  obtain ⟨lock, hl⟩ := hb.known _ hw
  obtain ⟨hreaders, hwriter, halone⟩ := hb.accounts n lock hl
  have hlock := hb.writer hw hl
  constructor
  · rw [← hwriter, hlock, Bool.toNat_true]
  · rw [← List.count_eq_zero, ← hreaders]
    exact halone hlock

/-- Locks that are held as before are in balance as before, wherever they are kept. -/
theorem Balanced.relocked {S' : Type} [LockSpace S'] {locks' : S'} (hb : Balanced locks tickets)
    (hsame : ∀ n, (LockSpace.lock? locks' n).map (fun l => (l.readers, l.writer)) =
      (LockSpace.lock? locks n).map fun l => (l.readers, l.writer)) :
    Balanced locks' tickets := by
  constructor
  · intro ticket ht
    obtain ⟨lock, hl⟩ := hb.known ticket ht
    have hholds := hsame ticket.lock
    rw [hl] at hholds
    obtain ⟨lock', hl', -⟩ := Option.map_eq_some_iff.1 hholds
    exact ⟨lock', hl'⟩
  · intro n lock' hl'
    have hholds := hsame n
    rw [hl'] at hholds
    obtain ⟨lock, hl, heq⟩ := Option.map_eq_some_iff.1 hholds.symm
    obtain ⟨hreaders, hwriter⟩ := Prod.mk.inj heq
    exact (hb.accounts n lock hl).congr hreaders.symm hwriter.symm

variable [LawfulLockSpace S]

theorem lock?_setLock_self {n : Nat} (hl : LockSpace.lock? locks n = some lock) (lock' : Lock) :
    LockSpace.lock? (LockSpace.setLock locks n lock') n = some lock' := by
  rw [LawfulLockSpace.lock?_setLock, if_pos rfl, hl]
  rfl

theorem exists_lock?_setLock {n k : Nat} (h : ∃ lock, LockSpace.lock? locks k = some lock)
    (lock' : Lock) : ∃ lock, LockSpace.lock? (LockSpace.setLock locks n lock') k = some lock := by
  obtain ⟨lock, hl⟩ := h
  rw [LawfulLockSpace.lock?_setLock, hl]
  split
  · exact ⟨_, rfl⟩
  · exact ⟨_, rfl⟩

theorem Balanced.acquire (hb : Balanced locks tickets) {n : Nat} {mode : Lock.Mode}
    (hl : LockSpace.lock? locks n = some lock) (hacq : lock.tryAcquire mode = some lock') :
    Balanced (LockSpace.setLock locks n lock') (⟨n, mode⟩ :: tickets) := by
  constructor
  · intro other hother
    rcases List.mem_cons.1 hother with rfl | hother
    · exact ⟨lock', lock?_setLock_self hl lock'⟩
    · exact exists_lock?_setLock (hb.known other hother) lock'
  · intro k l hlk
    by_cases hk : n = k
    · subst hk
      rw [lock?_setLock_self hl, Option.some.injEq] at hlk
      subst hlk
      exact (hb.accounts n lock hl).grant hacq
    · rw [LawfulLockSpace.lock?_setLock, if_neg hk] at hlk
      exact (accounts_cons_of_ne hk).2 (hb.accounts k l hlk)

/-- **A ticket that is out can be given back.** -/
theorem Balanced.releaseOne (hb : Balanced locks (ticket :: tickets)) :
    (Transaction.releaseOne (τ := τ) locks ticket).1 = .released ticket true ∧
      Balanced (Transaction.releaseOne (τ := τ) locks ticket).2 tickets := by
  obtain ⟨lock, hl⟩ := hb.known ticket List.mem_cons_self
  obtain ⟨lock', hrelease, haccounts⟩ := (hb.accounts ticket.lock lock hl).release
  unfold Transaction.releaseOne
  simp only [hl, Option.map_some, hrelease, true_and]
  constructor
  · intro other hother
    exact exists_lock?_setLock (hb.known other (List.mem_cons_of_mem _ hother)) lock'
  · intro n l hln
    by_cases hn : ticket.lock = n
    · subst hn
      rw [lock?_setLock_self hl, Option.some.injEq] at hln
      subst hln
      exact haccounts
    · rw [LawfulLockSpace.lock?_setLock, if_neg hn] at hln
      exact (accounts_cons_of_ne hn).1 (hb.accounts n l hln)

theorem Balanced.releaseEach (given : List Ticket) (hb : Balanced locks (given ++ tickets)) :
    Balanced (Transaction.releaseEach (τ := τ) locks given).2 tickets := by
  induction given generalizing locks with
  | nil => exact hb
  | cons ticket given ih => exact ih hb.releaseOne.2

end

/-! ## Transactions -/

/-- A started transaction does what others refuse. -/
theorem ensureStarted_bind {α : Type} (t : Transaction τ) (name : String) (a : α) :
    (t.ensureStarted name >>= fun _ => pure a) =
      if t.state = .started then .ok a else .error (.invalidState t.id t.state name) := by
  unfold ensureStarted
  split <;> rfl

theorem register_eq (t : Transaction τ) (ticket : Ticket) :
    t.register ticket = if t.state = .started then .ok { t with ledger := t.ledger ++ [ticket] }
      else .error (.invalidState t.id t.state "register a lock") :=
  ensureStarted_bind ..

theorem listen_eq (t : Transaction τ) (listener : τ) :
    t.listen listener =
      if t.state = .started then .ok { t with listeners := t.listeners ++ [listener] }
      else .error (.invalidState t.id t.state "register a listener") :=
  ensureStarted_bind ..

theorem commit_eq (t : Transaction τ) (locks : S) :
    t.commit locks = if t.state = .started then .ok (t.conclude .commit locks)
      else .error (.invalidState t.id t.state "commit") :=
  ensureStarted_bind ..

theorem abort_eq (t : Transaction τ) (locks : S) :
    t.abort locks = if t.state = .started then .ok (t.conclude .abort locks)
      else .error (.invalidState t.id t.state "abort") :=
  ensureStarted_bind ..

/-- **What acquiring a lock comes to** if it succeeds. -/
theorem acquire_ok {t t' : Transaction τ} {ticket : Ticket} {locks locks' : S}
    (h : t.acquire ticket locks = some (.ok (t', locks'))) :
    ∃ lock lock', LockSpace.lock? locks ticket.lock = some lock ∧
      lock.tryAcquire ticket.mode = some lock' ∧
      t' = { t with ledger := t.ledger ++ [ticket] } ∧
      locks' = LockSpace.setLock locks ticket.lock lock' := by
  unfold acquire at h
  cases hstate : t.ensureStarted "acquire a lock" with
  | error e => simp [hstate] at h
  | ok u =>
    cases hl : LockSpace.lock? locks ticket.lock with
    | none => simp [hstate, hl] at h
    | some lock =>
      cases hacq : lock.tryAcquire ticket.mode with
      | none =>
        -- an acquire that is not granted at once times out or waits
        have hwait : ∀ l, lock.acquire ticket.mode ≠ some (.ok l) := by
          intro l
          unfold Lock.acquire
          rw [hacq]
          cases lock.timeout <;> simp
        simp only [hstate, hl] at h
        split at h
        · cases h
        · cases h
        · rename_i l hgranted
          exact absurd hgranted (hwait l)
      | some lock' =>
        have hgranted : lock.acquire ticket.mode = some (.ok lock') := by
          unfold Lock.acquire
          rw [hacq]
        simp only [hstate, hl, hgranted, Option.some.injEq, Except.ok.injEq, Prod.mk.injEq] at h
        exact ⟨lock, lock', rfl, hacq, h.1.symm, h.2.symm⟩

/-- **What an acquire that fails comes to**: the lock could not be had in time. -/
theorem acquire_error {t : Transaction τ} {ticket : Ticket} {locks : S} {e : Lock.Error}
    (h : t.acquire ticket locks = some (.error (.lock e))) :
    t.ensureStarted "acquire a lock" = .ok () ∧
      ∃ lock limit, LockSpace.lock? locks ticket.lock = some lock ∧
        lock.admits ticket.mode = false ∧ lock.timeout = some limit := by
  unfold acquire at h
  cases hstate : t.ensureStarted "acquire a lock" with
  | error e' =>
    -- a transaction that has finished is refused for another reason
    have hrefused := hstate
    unfold ensureStarted at hrefused
    split at hrefused
    · cases hrefused
    · cases hrefused
      simp [hstate] at h
  | ok u =>
    cases hl : LockSpace.lock? locks ticket.lock with
    | none => simp [hstate, hl] at h
    | some lock =>
      unfold Lock.acquire Lock.tryAcquire at h
      cases hadmits : lock.admits ticket.mode with
      | true => simp [hstate, hl, hadmits] at h
      | false =>
        cases hlimit : lock.timeout with
        | none => simp [hstate, hl, hadmits, hlimit] at h
        | some limit => exact ⟨rfl, lock, limit, rfl, hadmits, hlimit⟩

/-- The lock that an event gives back. -/
def Event.ticket? : Event τ → Option Ticket
  | .notified .. => none
  | .released ticket _ => some ticket

theorem ticket?_releaseOne (locks : S) (ticket : Ticket) :
    (releaseOne (τ := τ) locks ticket).1.ticket? = some ticket := by
  unfold releaseOne
  split <;> rfl

theorem tickets_releaseEach (locks : S) (tickets : List Ticket) :
    (releaseEach (τ := τ) locks tickets).1.filterMap (·.ticket?) = tickets := by
  induction tickets generalizing locks with
  | nil => rfl
  | cons ticket tickets ih =>
    have hfirst := ticket?_releaseOne (τ := τ) locks ticket
    simp only [releaseEach, List.filterMap_cons, hfirst, ih]

theorem ticket?_releaseEach (locks : S) (tickets : List Ticket) :
    ∀ e ∈ (releaseEach (τ := τ) locks tickets).1, e.ticket? ≠ none := by
  induction tickets generalizing locks with
  | nil => simp [releaseEach]
  | cons ticket tickets ih =>
    intro e he
    rcases List.mem_cons.1 he with rfl | he
    · exact ((ticket?_releaseOne locks ticket).trans_ne (Option.some_ne_none ticket))
    · exact ih _ e he

/-- **What giving everything back comes to.**  The ledger is emptied and its locks are given back,
after some calls; or the transaction has finished before, and nothing happens. -/
inductive Parts (t : Transaction τ) (locks : S) (after : After S τ) : Prop
  | gives (calls : List (Event τ)) (silent : ∀ e ∈ calls, e.ticket? = none)
      (emptied : after.transaction.ledger = [])
      (events : after.events = calls ++ (releaseEach locks t.ledger.reverse).1)
      (given : after.locks = (releaseEach (τ := τ) locks t.ledger.reverse).2)
  | rests (finished : t.state ≠ .started) (same : after.transaction.ledger = t.ledger)
      (silent : after.events = []) (untouched : after.locks = locks)

/-- A transaction that finishes gives every lock back; one that has finished before has none. -/
inductive Finished (t : Transaction τ) (locks : S) (after : After S τ) : Prop
  | released (empty : after.transaction.ledger = [])
      (given : after.locks = (releaseEach (τ := τ) locks t.ledger.reverse).2)
  | unchanged (same : after.transaction.ledger = t.ledger) (untouched : after.locks = locks)

section
variable {t : Transaction τ} {locks : S} {after : After S τ}

/-- **No ticket is lost**: what leaves the ledger is given back. -/
theorem Parts.conserves (hp : Parts t locks after) :
    (after.transaction.ledger ++ after.events.filterMap (·.ticket?)).Perm t.ledger := by
  cases hp with
  | gives calls silent emptied events given =>
    have hcalls : calls.filterMap (·.ticket?) = [] := List.filterMap_eq_nil_iff.2 silent
    rw [emptied, events, List.filterMap_append, hcalls, tickets_releaseEach]
    exact t.ledger.reverse_perm
  | rests finished same silent untouched =>
    rw [same, silent]
    exact .of_eq (List.append_nil _)

/-- What happens is calls, and then that locks are given back. -/
theorem Parts.split (hp : Parts t locks after) :
    ∃ (calls : List (Event τ)) (given : List Ticket), (∀ e ∈ calls, e.ticket? = none) ∧
      after.events = calls ++ (releaseEach locks given).1 ∧
      after.locks = (releaseEach (τ := τ) locks given).2 := by
  cases hp with
  | gives calls silent emptied events given => exact ⟨calls, _, silent, events, given⟩
  | rests finished same silent untouched => exact ⟨[], [], by simp, silent, untouched⟩

theorem Parts.finished (hp : Parts t locks after) : Finished t locks after := by
  cases hp with
  | gives calls silent emptied events given => exact .released emptied given
  | rests finished same silent untouched => exact .unchanged same untouched

theorem parts_conclude (t : Transaction τ) (outcome : Outcome) (locks : S) :
    Parts t locks (t.conclude outcome locks) :=
  .gives _ (List.forall_mem_map.2 fun _ _ => rfl) rfl rfl rfl

theorem parts_of_commit (h : t.commit locks = .ok after) : Parts t locks after := by
  rw [commit_eq] at h
  split at h
  · cases h
    exact parts_conclude t .commit locks
  · cases h

theorem parts_of_abort (h : t.abort locks = .ok after) : Parts t locks after := by
  rw [abort_eq] at h
  split at h
  · cases h
    exact parts_conclude t .abort locks
  · cases h

theorem parts_of_close (h : t.close locks = .ok after) : Parts t locks after := by
  unfold close at h
  split at h
  · cases h
  · cases h
    exact .gives _ (List.forall_mem_map.2 fun _ _ => rfl) rfl rfl rfl
  all_goals
    rename_i hstate
    cases h
    exact .rests (by simp [hstate]) rfl rfl rfl

/-- Only a transaction that is closed already cannot be closed. -/
theorem close_error {e : Error} (h : t.close locks = .error e) : t.state = .closed := by
  unfold close at h
  split at h
  · assumption
  all_goals cases h

theorem parts_drop (t : Transaction τ) (locks : S) : Parts t locks (t.drop locks) := by
  unfold drop
  cases hclose : t.close locks with
  | ok after => exact parts_of_close hclose
  | error e => exact .rests (by simp [close_error hclose]) rfl rfl rfl

theorem finished_of_commit (h : t.commit locks = .ok after) : Finished t locks after :=
  (parts_of_commit h).finished

theorem finished_of_abort (h : t.abort locks = .ok after) : Finished t locks after :=
  (parts_of_abort h).finished

theorem finished_of_close (h : t.close locks = .ok after) : Finished t locks after :=
  (parts_of_close h).finished

theorem finished_drop (t : Transaction τ) (locks : S) : Finished t locks (t.drop locks) :=
  (parts_drop t locks).finished

end

end Transaction
end Folio
