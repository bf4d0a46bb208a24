import Folio.Proofs.Lock.Safety
import Folio.Proofs.Transaction.Ledger

/-! # Transactions at work

A `Hall` is a number of locks, each with those who wait for it, and a number of
transactions that acquire them and give them back.  Acquiring and finishing take more than
one step, and other transactions come between: an acquire may block and be granted its
lock later, what was granted is entered in the ledger afterwards, and a transaction that
finishes has emptied its ledger before it gives the first lock back.  Meanwhile it has
tickets **in hand** (`Party.inHand`).  A `Move` is one step of one transaction, or of
somebody who waits for a lock.

A call during which nobody else makes a move is the operation of the library:
`enter_ask` and `expire_ask` say so of an acquire, which succeeds or fails, and
`giveBack_leave` of all the ways of giving locks back.
-/
namespace Folio

open Lock (Room Step)

section
variable {κ : Type}

/-- The locks of several rooms. -/
instance : LockSpace (List (Room κ)) where
  lock? rooms n := rooms[n]?.map (·.lock)
  setLock rooms n lock := rooms.modify n ({ · with lock })

/-- Setting the lock of one room leaves the others alone. -/
instance : LawfulLockSpace (List (Room κ)) where
  lock?_setLock rooms n k lock := by
    simp only [LockSpace.lock?, LockSpace.setLock, List.getElem?_modify]
    split <;> cases rooms[k]? <;> rfl

end

namespace Transaction

variable {τ S : Type}

/-! ## Calls -/

/-- The ways in which a transaction gives all its locks back. -/
inductive Farewell where
  | releaseAll | commit | abort | close | drop
deriving DecidableEq, Repr

/-- A transaction gives its locks back, or refuses to. -/
def Farewell.run [LockSpace S] (how : Farewell) (t : Transaction τ) (locks : S) :
    Except Error (After S τ) :=
  match how with
  | .releaseAll => .ok (t.releaseAll locks)
  | .commit => t.commit locks
  | .abort => t.abort locks
  | .close => t.close locks
  | .drop => .ok (t.drop locks)

/-- What a transaction is in the middle of. -/
inductive Call where
  | idle
  /-- It is blocked in an acquire. -/
  | waiting (ticket : Ticket)
  /-- It was granted a lock that is not yet in its ledger. -/
  | granted (ticket : Ticket)
  /-- It gives back what was in its ledger, the first of these next. -/
  | parting (tickets : List Ticket)
deriving DecidableEq, Repr

/-- A transaction and the call it is in the middle of. -/
structure Party (τ : Type) where
  transaction : Transaction τ
  call : Call := .idle

namespace Party

/-- The tickets of locks that the transaction holds and that are not in its ledger. -/
def inHand (party : Party τ) : List Ticket :=
  match party.call with
  | .granted ticket => [ticket]
  | .parting tickets => tickets
  | .idle | .waiting _ => []

/-- All tickets of the transaction. -/
def tickets (party : Party τ) : List Ticket := party.transaction.ledger ++ party.inHand

/-- A blocked acquire returns. -/
def told (party : Party τ) (ticket : Ticket) (result : Except Lock.Error Unit) : Party τ :=
  { party with call := match result with
    | .ok () => .granted ticket
    | .error _ => .idle }

end Party

end Transaction

open Transaction (After Call Error Farewell Party Ticket)

/-- Locks with those who wait for them, and transactions.  The callers in the rooms are the numbers
of the transactions. -/
structure Hall (τ : Type) where
  rooms : List (Room Nat)
  parties : List (Party τ) := []

namespace Hall

variable {τ : Type}

/-- One step of a transaction, or of somebody who waits for a lock. -/
inductive Move (τ : Type) where
  /-- A transaction begins. -/
  | join (t : Transaction τ)
  /-- Transaction `p` begins to acquire a lock. -/
  | ask (p : Nat) (ticket : Ticket)
  /-- Something happens to those who wait for lock `n`. -/
  | turn (n : Nat) (step : Step Nat)
  /-- Transaction `p` enters the lock it was granted. -/
  | enter (p : Nat)
  /-- Transaction `p` begins to give its locks back. -/
  | leave (p : Nat) (how : Farewell)
  /-- Transaction `p` gives one lock back, or returns if there is none left. -/
  | giveBack (p : Nat)

/-- The first step of an acquire: the lock is granted, or the transaction blocks. -/
def ask (hall : Hall τ) (p : Nat) (ticket : Ticket) : Hall τ :=
  match hall.parties[p]?, hall.rooms[ticket.lock]? with
  | some party, some room =>
    match party.transaction.ensureStarted "acquire a lock" with
    | .error _ => hall
    | .ok () =>
      let (granted, room) := room.arrive p ticket.mode
      let call : Call := if granted then .granted ticket else .waiting ticket
      { rooms := hall.rooms.set ticket.lock room
        parties := hall.parties.set p { party with call } }
  | _, _ => hall

/-- A step in a room, which may end somebody's acquire. -/
def turn (hall : Hall τ) (n : Nat) (step : Step Nat) : Hall τ :=
  match hall.rooms[n]? with
  | none => hall
  | some room =>
    let (event, room) := room.perform step
    { rooms := hall.rooms.set n room
      parties := match event with
        | some (.ended p mode result) => hall.parties.modify p (·.told ⟨n, mode⟩ result)
        | _ => hall.parties }

/-- The lock that was granted is entered in the ledger. -/
def enter (hall : Hall τ) (p : Nat) : Hall τ :=
  match hall.parties[p]? with
  | some { transaction := t, call := .granted ticket } =>
    { hall with
      parties := hall.parties.set p { transaction := { t with ledger := t.ledger ++ [ticket] } } }
  | _ => hall

/-- A transaction finishes, or empties its ledger early, up to the locks that it has to give back.
What it becomes nobody sees before the call returns. -/
def leave (hall : Hall τ) (p : Nat) (how : Farewell) : List (Transaction.Event τ) × Hall τ :=
  match hall.parties[p]? with
  | none => ([], hall)
  | some party =>
    match how.run party.transaction hall.rooms with
    | .error _ => ([], hall)
    | .ok after =>
      let call : Call := .parting (after.events.filterMap (·.ticket?))
      (after.events.filter (·.ticket?.isNone),
        { hall with parties := hall.parties.set p { transaction := after.transaction, call } })

/-- One lock is given back in its room. -/
def handIn (rooms : List (Room Nat)) (ticket : Ticket) : Transaction.Event τ × List (Room Nat) :=
  match rooms[ticket.lock]?.map fun room : Room Nat => room.release ticket.mode with
  | some (.ok room) => (.released ticket true, rooms.set ticket.lock room)
  | _ => (.released ticket false, rooms)

/-- The next lock is given back. -/
def giveBack (hall : Hall τ) (p : Nat) : List (Transaction.Event τ) × Hall τ :=
  match hall.parties[p]? with
  | some { transaction := t, call := .parting (ticket :: tickets) } =>
    let (event, rooms) := handIn hall.rooms ticket
    let party := { transaction := t, call := .parting tickets }
    ([event], { rooms, parties := hall.parties.set p party })
  | some { transaction := t, call := .parting [] } =>
    ([], { hall with parties := hall.parties.set p { transaction := t } })
  | _ => ([], hall)

/-- What has happened, and the hall after a move. -/
def perform (hall : Hall τ) : Move τ → List (Transaction.Event τ) × Hall τ
  | .join t => ([], { hall with parties := hall.parties ++ [{ transaction := t }] })
  | .ask p ticket => ([], hall.ask p ticket)
  | .turn n step => ([], hall.turn n step)
  | .enter p => ([], hall.enter p)
  | .leave p how => hall.leave p how
  | .giveBack p => hall.giveBack p

/-- Steps that are no calls on a lock: those who wait are disturbed, or take their turns. -/
def OfWaiters : Step Nat → Prop
  | .attempt _ | .arrive .. | .release _ => False
  | .interrupt | .deliver | .rouse _ | .resume _ | .expire _ => True

instance (step : Step Nat) : Decidable (OfWaiters step) := by
  unfold OfWaiters
  split <;> infer_instance

/-- A transaction begins with an empty ledger and makes one call at a time, and nobody but the
transactions takes a lock or gives one back. -/
def Allows (hall : Hall τ) : Move τ → Prop
  | .join t => t.state = .started ∧ t.ledger = []
  | .ask p _ | .leave p _ => ∀ party ∈ hall.parties[p]?, party.call = .idle
  | .turn _ step => OfWaiters step
  | .enter _ | .giveBack _ => True

instance (hall : Hall τ) (move : Move τ) : Decidable (hall.Allows move) := by
  unfold Allows
  split <;> infer_instance

/-- All tickets that are out. -/
def tickets (hall : Hall τ) : List Ticket := hall.parties.flatMap (·.tickets)

/-! ## Calls that nobody interrupts -/

/-- What happens when several moves are made, and nobody comes between. -/
def performAll (hall : Hall τ) : List (Move τ) → List (Transaction.Event τ) × Hall τ
  | [] => ([], hall)
  | move :: moves =>
    let (events, hall) := hall.perform move
    let (later, hall) := hall.performAll moves
    (events ++ later, hall)

section Rooms
open Transaction (releaseOne releaseEach)
variable {S : Type} [LockSpace S] [LawfulLockSpace S] {rooms : List (Room Nat)} {n : Nat}

/-- A room that is changed is a lock that is changed. -/
theorem lock?_set {room after : Room Nat} (hn : rooms[n]? = some room) (k : Nat) :
    LockSpace.lock? (rooms.set n after) k =
      LockSpace.lock? (LockSpace.setLock rooms n after.lock) k := by
  rw [LawfulLockSpace.lock?_setLock]
  simp only [LockSpace.lock?, List.getElem?_set]
  obtain ⟨hlt, -⟩ := List.getElem?_eq_some_iff.1 hn
  split
  · rename_i heq
    subst heq
    simp [hlt]
  · rfl

/-- Handing a lock in is giving it back. -/
theorem handIn_eq {locks : S}
    (hsame : ∀ k, LockSpace.lock? rooms k = LockSpace.lock? locks k) (ticket : Ticket) :
    (handIn (τ := τ) rooms ticket).1 = (releaseOne locks ticket).1 ∧
      ∀ k, LockSpace.lock? (handIn (τ := τ) rooms ticket).2 k =
        LockSpace.lock? (releaseOne (τ := τ) locks ticket).2 k := by
  unfold handIn releaseOne
  rw [← hsame]
  cases hn : rooms[ticket.lock]? with
  | none => simpa [LockSpace.lock?, hn] using hsame
  | some room =>
    have hl : LockSpace.lock? rooms ticket.lock = some room.lock := congrArg (Option.map _) hn
    cases hheld : room.lock.release ticket.mode with
    | error e => simpa [hl, Room.release, hheld, Except.map] using hsame
    | ok lock =>
      simp only [hl, Room.release, hheld, Except.map, Option.map_some, true_and]
      intro k
      rw [lock?_set hn, LawfulLockSpace.lock?_setLock, LawfulLockSpace.lock?_setLock, hsame]

end Rooms

section Calls
open Transaction
variable {S : Type} [LockSpace S] {hall : Hall τ} {p : Nat} {t : Transaction τ}

/-- **An acquire that succeeds** is the library's. -/
theorem enter_ask {t' : Transaction τ} {ticket : Ticket} {rooms : List (Room Nat)}
    (hp : hall.parties[p]? = some { transaction := t })
    (h : t.acquire ticket hall.rooms = some (.ok (t', rooms))) :
    hall.performAll [.ask p ticket, .enter p] =
      ([], { rooms, parties := hall.parties.set p { transaction := t' } }) := by
  have hstarted : t.ensureStarted "acquire a lock" = .ok () := by
    cases hensure : t.ensureStarted "acquire a lock" with
    | ok _ => rfl
    | error e => simp [Transaction.acquire, hensure] at h
  obtain ⟨lock, lock', hl, hacq, rfl, rfl⟩ := Transaction.acquire_ok h
  obtain ⟨room, hn, rfl⟩ := Option.map_eq_some_iff.1 hl
  obtain ⟨hlt, -⟩ := List.getElem?_eq_some_iff.1 hp
  have hask : hall.ask p ticket = {
      rooms := LockSpace.setLock hall.rooms ticket.lock lock'
      parties := hall.parties.set p { transaction := t, call := .granted ticket } } := by
    simp [ask, hp, hn, hstarted, Room.arrive, hacq, LockSpace.setLock, List.modify_eq_set_getElem?]
  simp [performAll, perform, hask, enter, hlt]

/-- **An acquire that fails** leaves the transaction and the locks as they were. -/
theorem expire_ask {ticket : Ticket} {e : Lock.Error}
    (hp : hall.parties[p]? = some { transaction := t })
    (hnew : ∀ room, hall.rooms[ticket.lock]? = some room → ∀ w ∈ room.waiters, w.caller ≠ p)
    (h : t.acquire ticket hall.rooms = some (.error (.lock e))) :
    ∃ rooms, hall.performAll [.ask p ticket, .turn ticket.lock (.expire p)] =
        ([], { hall with rooms }) ∧
      ∀ k, LockSpace.lock? rooms k = LockSpace.lock? hall.rooms k := by
  obtain ⟨hstarted, lock, limit, hl, htaken, hlimit⟩ := acquire_error h
  obtain ⟨room, hn, rfl⟩ := Option.map_eq_some_iff.1 hl
  obtain ⟨hltn, -⟩ := List.getElem?_eq_some_iff.1 hn
  have hask : hall.ask p ticket = {
      rooms := hall.rooms.set ticket.lock (room.enqueue p ticket.mode)
      parties := hall.parties.set p { transaction := t, call := .waiting ticket } } := by
    rcases room.arrive_cases p ticket.mode with ⟨hfree, -⟩ | ⟨-, harrive⟩
    · rw [htaken] at hfree
      cases hfree
    · simp [ask, hp, hn, hstarted, harrive]
  have hexpire := Room.expire_enqueue (hnew room hn) htaken hlimit
  -- the transaction goes back to what it was
  have hback : (hall.parties.set p { transaction := t, call := .waiting ticket }).modify p
      (·.told ticket (.error (.timeout ticket.mode limit))) = hall.parties := by
    obtain ⟨hltp, hparty⟩ := List.getElem?_eq_some_iff.1 hp
    rw [List.modify_eq_set_getElem?, List.getElem?_set_self hltp]
    simp [Party.told, ← hparty]
  refine ⟨hall.rooms.set ticket.lock { room with notices := room.notices + 1 }, ?_, fun k => ?_⟩
  · simp [performAll, perform, hask, turn, hltn, hexpire, hback]
  · rw [lock?_set hn, LawfulLockSpace.lock?_setLock]
    split
    · rename_i heq
      rw [← heq, hl]
      rfl
    · rfl

theorem parts_of_run {how : Farewell} {locks : S} {after : After S τ}
    (h : how.run t locks = .ok after) : Parts t locks after := by
  cases how with
  | releaseAll =>
    cases h
    exact .gives [] (by simp) rfl rfl rfl
  | commit => exact parts_of_commit h
  | abort => exact parts_of_abort h
  | close => exact parts_of_close h
  | drop =>
    cases h
    exact parts_drop t locks

variable [LawfulLockSpace S]

/-- Locks are given back in the order in which they stand in the list. -/
theorem giveBack_parting {locks : S} {tickets : List Ticket}
    (hp : hall.parties[p]? = some { transaction := t, call := .parting tickets })
    (hsame : ∀ k, LockSpace.lock? hall.rooms k = LockSpace.lock? locks k) :
    ∃ rooms, hall.performAll (.replicate (tickets.length + 1) (.giveBack p)) =
        ((releaseEach locks tickets).1,
          { rooms, parties := hall.parties.set p { transaction := t } }) ∧
      ∀ k, LockSpace.lock? rooms k = LockSpace.lock? (releaseEach (τ := τ) locks tickets).2 k := by
  induction tickets generalizing hall locks with
  | nil =>
    refine ⟨hall.rooms, ?_, hsame⟩
    simp [performAll, perform, giveBack, hp, releaseEach]
  | cons ticket tickets ih =>
    obtain ⟨hlt, -⟩ := List.getElem?_eq_some_iff.1 hp
    obtain ⟨hevent, hlocks⟩ := handIn_eq (τ := τ) hsame ticket
    let next : Hall τ := {
      rooms := (handIn (τ := τ) hall.rooms ticket).2
      parties := hall.parties.set p { transaction := t, call := .parting tickets } }
    have hgive : hall.perform (.giveBack p) = ([(releaseOne locks ticket).1], next) := by
      simp only [perform, giveBack, hp, ← hevent]
      rfl
    have hnext : next.parties[p]? = some { transaction := t, call := .parting tickets } :=
      List.getElem?_set_self hlt
    obtain ⟨rooms, hrest, hsettled⟩ := ih hnext hlocks
    refine ⟨rooms, ?_, hsettled⟩
    rw [List.length_cons, List.replicate_succ, performAll, hgive]
    simp only [hrest, releaseEach, List.set_set, next]
    rfl

/-- **Giving all locks back**, in whatever way, is the library's. -/
theorem giveBack_leave {how : Farewell} {after : After (List (Room Nat)) τ}
    (hp : hall.parties[p]? = some { transaction := t })
    (h : how.run t hall.rooms = .ok after) :
    ∃ rooms, hall.performAll (.leave p how :: .replicate
          ((after.events.filterMap (·.ticket?)).length + 1) (.giveBack p)) =
        (after.events,
          { rooms, parties := hall.parties.set p { transaction := after.transaction } }) ∧
      ∀ k, LockSpace.lock? rooms k = LockSpace.lock? after.locks k := by
  obtain ⟨calls, given, hsilent, hevents, hlocks⟩ := (parts_of_run h).split
  have hgiven : after.events.filterMap (·.ticket?) = given := by
    rw [hevents, List.filterMap_append, List.filterMap_eq_nil_iff.2 hsilent, tickets_releaseEach]
    rfl
  have hcalls : after.events.filter (·.ticket?.isNone) = calls := by
    rw [hevents, List.filter_append, List.filter_eq_self.2 fun e he => by simp [hsilent e he],
      List.filter_eq_nil_iff.2 fun e he => by simp [ticket?_releaseEach hall.rooms given e he],
      List.append_nil]
  obtain ⟨hlt, -⟩ := List.getElem?_eq_some_iff.1 hp
  let parting : Hall τ := { hall with
    parties := hall.parties.set p { transaction := after.transaction, call := .parting given } }
  have hleave : hall.perform (.leave p how) = (calls, parting) := by
    simp only [perform, leave, hp, h, hgiven, hcalls]
    rfl
  have hparting : parting.parties[p]? =
      some { transaction := after.transaction, call := .parting given } :=
    List.getElem?_set_self hlt
  have hsame (k : Nat) : LockSpace.lock? parting.rooms k = LockSpace.lock? hall.rooms k := rfl
  obtain ⟨rooms, hrest, hsettled⟩ := giveBack_parting hparting hsame
  refine ⟨rooms, ?_, fun k => by rw [hsettled, hlocks]⟩
  rw [performAll, hleave, hgiven]
  simp only [hrest, hevents, List.set_set, parting]

end Calls
end Hall
end Folio
