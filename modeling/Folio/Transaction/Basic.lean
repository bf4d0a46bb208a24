import Folio.Transaction.Error

/-!
Transactions. A transaction keeps a ledger of the locks it has acquired, in the order in which it
acquired them; when it finishes it tells its listeners and gives the locks back, the last one first.
Every finishing operation also tells what it did, as a list of events.
-/
namespace Folio

/-- A place that keeps locks under numbers. -/
class LockSpace (S : Type) where
  lock? : S → Nat → Option Lock
  setLock : S → Nat → Lock → S

instance : LockSpace (Array Lock) where
  lock? locks n := locks[n]?
  setLock locks n lock := locks.modify n fun _ => lock

namespace Transaction

/-- One acquired lock. -/
structure Ticket where
  /-- The lock's number. -/
  lock : Nat
  mode : Lock.Mode
deriving DecidableEq, Repr

/-- The two ways of finishing. -/
inductive Outcome where
  | commit | abort
deriving DecidableEq, Repr

namespace Outcome

def name : Outcome → String
  | commit => "commit"
  | abort => "abort"

def state : Outcome → State
  | commit => .committed
  | abort => .aborted

end Outcome

/-- What happens while a transaction finishes. -/
inductive Event (τ : Type) where
  /-- A listener is told how the transaction ended. -/
  | notified (listener : τ) (outcome : Outcome) (id : UInt64)
  /-- A lock is given back; `held` tells whether there was a hold to give. -/
  | released (ticket : Ticket) (held : Bool)
deriving DecidableEq, Repr

end Transaction

/-- A transaction with listeners of type `τ`. -/
structure Transaction (τ : Type) where
  id : UInt64
  state : Transaction.State := .started
  /-- The tickets, oldest first. -/
  ledger : List Transaction.Ticket := []
  /-- The listeners in the order of their registration. -/
  listeners : List τ := []
  /-- The transaction is in a registry, which it leaves when it is closed. -/
  registered : Bool := false
deriving DecidableEq, Repr

namespace Transaction

variable {τ S : Type}

def ensureStarted (t : Transaction τ) (operation : String) : Except Error Unit :=
  if t.state = .started then .ok () else .error (.invalidState t.id t.state operation)

def holds (t : Transaction τ) (ticket : Ticket) : Bool := ticket ∈ t.ledger

/-- Enters a lock that was acquired by other means. -/
def register (t : Transaction τ) (ticket : Ticket) : Except Error (Transaction τ) := do
  t.ensureStarted "register a lock"
  return { t with ledger := t.ledger ++ [ticket] }

/-- Acquires a lock and enters it, while nobody else touches the lock; `none` if it would wait
without end. A lock that could not be acquired is not entered. -/
def acquire [LockSpace S] (t : Transaction τ) (ticket : Ticket) (locks : S) :
    Option (Except Error (Transaction τ × S)) :=
  match t.ensureStarted "acquire a lock", LockSpace.lock? locks ticket.lock with
  | .error e, _ => some (.error e)
  | .ok (), none => none
  | .ok (), some lock =>
    match lock.acquire ticket.mode with
    | none => none
    | some (.error e) => some (.error (.lock e))
    | some (.ok lock) =>
      some (.ok ({ t with ledger := t.ledger ++ [ticket] },
        LockSpace.setLock locks ticket.lock lock))

/-- The owner and the ledger disagree about a lock that was to be struck out. -/
structure Unregistered where
  id : UInt64
  ticket : Ticket
deriving DecidableEq, Repr

/-- Locks are shown by their number in base 16. -/
def lockNumber (n : Nat) : String := "0x" ++ String.ofList (Nat.toDigits 16 n)

def Unregistered.message (u : Unregistered) : String :=
  s!"txn {u.id}: deregister of {u.ticket.mode.name} lock " ++ lockNumber u.ticket.lock
    ++ " that was never registered"

/-- Strikes the latest entry of a lock out without giving the lock back. -/
def deregister (t : Transaction τ) (ticket : Ticket) : Except Unregistered (Transaction τ) :=
  if ticket ∈ t.ledger then .ok { t with ledger := (t.ledger.reverse.erase ticket).reverse }
  else .error ⟨t.id, ticket⟩

def listen (t : Transaction τ) (listener : τ) : Except Error (Transaction τ) := do
  t.ensureStarted "register a listener"
  return { t with listeners := t.listeners ++ [listener] }

/-! ### Finishing -/

/-- A transaction after an operation, the locks, and what has happened. -/
structure After (S τ : Type) where
  transaction : Transaction τ
  locks : S
  events : List (Event τ)

/-- The transaction after its registry was given up. -/
def leaveRegistry (t : Transaction τ) : Transaction τ := { t with registered := false }

/-- Gives one lock back, if there is a hold to give. -/
def releaseOne [LockSpace S] (locks : S) (ticket : Ticket) : Event τ × S :=
  match (LockSpace.lock? locks ticket.lock).map fun lock : Lock => lock.release ticket.mode with
  | some (.ok lock) => (.released ticket true, LockSpace.setLock locks ticket.lock lock)
  | _ => (.released ticket false, locks)

/-- Gives locks back in the given order. -/
def releaseEach [LockSpace S] (locks : S) : List Ticket → List (Event τ) × S
  | [] => ([], locks)
  | ticket :: tickets =>
    let (event, locks) := releaseOne locks ticket
    let (events, locks) := releaseEach locks tickets
    (event :: events, locks)

/-- Gives every lock back, the last one first, and empties the ledger. -/
def releaseAll [LockSpace S] (t : Transaction τ) (locks : S) : After S τ :=
  let (events, locks) := releaseEach locks t.ledger.reverse
  { transaction := { t with ledger := [] }, locks, events }

/-- Tells the listeners the outcome, then gives every lock back. -/
def conclude [LockSpace S] (t : Transaction τ) (outcome : Outcome) (locks : S) : After S τ :=
  let calls := t.listeners.map fun l => Event.notified l outcome t.id
  let after := releaseAll { t with state := outcome.state } locks
  { after with events := calls ++ after.events }

def commit [LockSpace S] (t : Transaction τ) (locks : S) : Except Error (After S τ) := do
  t.ensureStarted "commit"
  return t.conclude .commit locks

def abort [LockSpace S] (t : Transaction τ) (locks : S) : Except Error (After S τ) := do
  t.ensureStarted "abort"
  return t.conclude .abort locks

/-- Closes a transaction, which aborts it first if it has not finished. -/
def close [LockSpace S] (t : Transaction τ) (locks : S) : Except Error (After S τ) :=
  match t.state with
  | .closed => .error (.invalidState t.id t.state "close")
  | .started =>
    let aborted := t.conclude .abort locks
    .ok { aborted with
      transaction := { aborted.transaction with
        state := .closed, listeners := [], registered := false } }
  | .committed | .aborted =>
    .ok {
      transaction := { t with state := .closed, listeners := [], registered := false }
      locks
      events := [] }

/-- Closes a transaction that is given up, unless it is closed. -/
def drop [LockSpace S] (t : Transaction τ) (locks : S) : After S τ :=
  match t.close locks with
  | .ok after => after
  | .error _ => { transaction := t, locks, events := [] }

/-! ### Descriptions -/

def Ticket.describe (ticket : Ticket) : String :=
  "LockTicket \x7b lock: " ++ lockNumber ticket.lock ++ ", mode: " ++ ticket.mode.label ++ " \x7d"

def describe (t : Transaction τ) : String :=
  "Transaction \x7b txn_id: " ++ toString t.id ++ ", state: " ++ t.state.label
    ++ ", held_locks: [" ++ ", ".intercalate (t.ledger.map Ticket.describe)
    ++ "], listeners: " ++ toString t.listeners.length ++ " \x7d"

end Transaction
end Folio
