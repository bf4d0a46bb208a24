import Folio.Lock.Basic

/-!
A lock together with the acquires that are blocked on it. A blocked acquire sleeps until it is
woken, then looks at the lock again and ends or goes back to sleep. Waking is a notice that is
posted by whoever changes the lock and delivered to all sleepers in a step of its own, so every
definition here is one step that other callers cannot divide. `Room.settle` lets the blocked
acquires run until none of them can get on.
-/
namespace Folio.Lock

/-- A blocked acquire. -/
structure Waiter (κ : Type) where
  caller : κ
  mode : Mode
  /-- The lock's epoch when the acquire blocked. -/
  epoch : UInt64
  /-- Woken and not yet back at the lock. -/
  awake : Bool := false
deriving DecidableEq, Repr

/-- The waiter woken, or back asleep. -/
def Waiter.setAwake {κ : Type} (w : Waiter κ) (awake : Bool) : Waiter κ := { w with awake }

/-- A lock and the acquires blocked on it, in the order in which they came. -/
structure Room (κ : Type) where
  lock : Lock
  waiters : List (Waiter κ) := []
  /-- Notices posted and not yet delivered. -/
  notices : Nat := 0
deriving DecidableEq, Repr

/-- How a blocked acquire comes to an end. -/
structure Ending (κ : Type) where
  caller : κ
  result : Except Error Unit

namespace Room

variable {κ : Type}

/-- A waiting acquire may have the lock: a waiting writer is not held back by itself. -/
def admitsWaiting (lock : Lock) : Mode → Bool
  | .read => lock.admits .read
  | .write => !lock.writer && lock.readers == 0

/-- Counts a waiting acquire in. -/
def enlist (lock : Lock) : Mode → Lock
  | .read => lock
  | .write => { lock with waitingWriters := lock.waitingWriters + 1 }

/-- Counts a waiting acquire out. -/
def dismiss (lock : Lock) : Mode → Lock
  | .read => lock
  | .write => { lock with waitingWriters := lock.waitingWriters - 1 }

/-- An attempt that does not wait. -/
def attempt (room : Room κ) (mode : Mode) : Bool × Room κ :=
  match room.lock.tryAcquire mode with
  | some lock => (true, { room with lock })
  | none => (false, room)

/-- The first step of an acquire: it is granted, or it blocks and goes to sleep. -/
def arrive (room : Room κ) (caller : κ) (mode : Mode) : Bool × Room κ :=
  match room.lock.tryAcquire mode with
  | some lock => (true, { room with lock })
  | none =>
    (false, { room with
      lock := enlist room.lock mode
      waiters := room.waiters ++ [{ caller, mode, epoch := room.lock.epoch }] })

/-- Gives a hold back and posts a notice. -/
def release (room : Room κ) (mode : Mode) : Except Error (Room κ) :=
  (room.lock.release mode).map fun lock => { room with lock, notices := room.notices + 1 }

/-- Calls off every acquire that is blocked now and posts a notice. -/
def interrupt (room : Room κ) : Room κ :=
  { room with lock := room.lock.interrupt, notices := room.notices + 1 }

/-- Delivers a notice: all sleepers wake. -/
def deliver (room : Room κ) : Room κ :=
  if room.notices = 0 then room
  else { room with
    waiters := room.waiters.map (·.setAwake true)
    notices := room.notices - 1 }

/-- Wakes one sleeper without a notice. -/
def rouse [DecidableEq κ] (room : Room κ) (caller : κ) : Room κ :=
  { room with waiters := room.waiters.map fun w =>
      if w.caller = caller then w.setAwake true else w }

/-- The waiters without the acquire of `caller`. -/
def without [DecidableEq κ] (room : Room κ) (caller : κ) : List (Waiter κ) :=
  room.waiters.filter (·.caller ≠ caller)

/-- Ends a blocked acquire: it is granted its mode, or it fails and posts a notice for those who
stood back for it. -/
def conclude [DecidableEq κ] (room : Room κ) (w : Waiter κ) (result : Except Error Unit) :
    Option (Ending κ) × Room κ :=
  let lock := dismiss room.lock w.mode
  let waiters := room.without w.caller
  match result with
  | .ok () => (some ⟨w.caller, result⟩, { room with lock := lock.grant w.mode, waiters })
  | .error _ => (some ⟨w.caller, result⟩, { lock, waiters, notices := room.notices + 1 })

/-- A woken acquire looks at the lock again. Being called off comes before being granted; with
neither it ends as `otherwise` says, or goes back to sleep. -/
def recheck [DecidableEq κ] (room : Room κ) (w : Waiter κ) (otherwise : Option Error) :
    Option (Ending κ) × Room κ :=
  if w.epoch ≠ room.lock.epoch then room.conclude w (.error (.interrupted w.mode))
  else if admitsWaiting room.lock w.mode then room.conclude w (.ok ())
  else
    match otherwise with
    | some e => room.conclude w (.error e)
    | none =>
      (none, { room with waiters := room.waiters.map fun v =>
        if v.caller = w.caller then v.setAwake false else v })

/-- The woken acquire of `caller` takes its turn. -/
def resume [DecidableEq κ] (room : Room κ) (caller : κ) : Option (Ending κ) × Room κ :=
  match room.waiters.find? (·.caller = caller) with
  | some w => if w.awake then room.recheck w none else (none, room)
  | none => (none, room)

/-- The time of the blocked acquire of `caller` runs out, if the lock sets a time. -/
def expire [DecidableEq κ] (room : Room κ) (caller : κ) : Option (Ending κ) × Room κ :=
  match room.waiters.find? (·.caller = caller), room.lock.timeout with
  | some w, some limit => room.recheck w (some (.timeout w.mode limit))
  | _, _ => (none, room)

/-- The blocked acquires in the order of their turns: those that have been called off, then
writers, then readers, each group as it came. -/
def turns (room : Room κ) : List κ :=
  let calledOff := room.waiters.filter (·.epoch ≠ room.lock.epoch)
  let waiting := room.waiters.filter (·.epoch = room.lock.epoch)
  (calledOff ++ waiting.filter (·.mode = .write) ++ waiting.filter (·.mode = .read)).map (·.caller)

/-- Everybody is woken and takes a turn. -/
def round [DecidableEq κ] (room : Room κ) : List (Ending κ) × Room κ :=
  let woken : Room κ := { room with
    waiters := room.waiters.map (·.setAwake true)
    notices := 0 }
  woken.turns.foldl (fun (endings, room) caller =>
    let (ending, room) := room.resume caller
    (endings ++ ending.toList, room)) ([], woken)

/-- Rounds until nobody gets on, with the acquires that ended in the order in which they did. -/
def settle [DecidableEq κ] (room : Room κ) : List (Ending κ) × Room κ :=
  let (endings, after) := room.round
  if after.waiters.length < room.waiters.length then
    let (later, settled) := settle after
    (endings ++ later, settled)
  else (endings, after)
termination_by room.waiters.length

end Room
end Folio.Lock
