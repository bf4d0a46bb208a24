import Folio.Text.Duration

/-!
The lock of one object: any number of readers or a single writer, where a waiting writer goes
before readers that come later. A lock belongs to no caller; whoever was granted a mode gives it
back. The definitions here are the single steps on a lock's state; acquires that wait beside one
another are in `Folio.Lock.Room`.
-/
namespace Folio

namespace Lock

/-- The two ways of holding a lock. -/
inductive Mode where
  | read | write
deriving DecidableEq, Repr

namespace Mode

def name : Mode → String
  | read => "read"
  | write => "write"

/-- The mode's name in the description of a value. -/
def label : Mode → String
  | read => "Read"
  | write => "Write"

end Mode

inductive Error where
  /-- The time allowed for waiting ran out. -/
  | timeout (mode : Mode) (waited : Duration)
  /-- The waiting was interrupted. -/
  | interrupted (mode : Mode)
  /-- There was no such hold to give back. -/
  | notHeld (mode : Mode)
deriving DecidableEq, Repr

def Error.message : Error → String
  | timeout mode waited => s!"timed out after {waited.describe} waiting for {mode.name} lock"
  | interrupted mode => s!"interrupted while waiting for {mode.name} lock"
  | notHeld mode => s!"attempted to release a {mode.name} lock that is not held"

end Lock

/-- The state of a lock. -/
structure Lock where
  /-- The number of read holds. -/
  readers : Nat := 0
  /-- There is a write hold. -/
  writer : Bool := false
  /-- The number of writers that wait. -/
  waitingWriters : Nat := 0
  /-- Changes with every interruption; an acquire that sees it change gives up. -/
  epoch : UInt64 := 0
  /-- How long an acquire may wait, `none` for as long as it takes. -/
  timeout : Option Duration := none
deriving DecidableEq, Repr

namespace Lock

/-- A newly arrived acquire may have the lock. Readers stand back for waiting writers. -/
def admits (lock : Lock) : Mode → Bool
  | .read => !lock.writer && lock.waitingWriters == 0
  | .write => !lock.writer && lock.readers == 0

/-- The lock with one more hold. -/
def grant (lock : Lock) : Mode → Lock
  | .read => { lock with readers := lock.readers + 1 }
  | .write => { lock with writer := true }

/-- Takes the lock if it can be had now. -/
def tryAcquire (lock : Lock) (mode : Mode) : Option Lock :=
  if lock.admits mode then some (lock.grant mode) else none

/-- What becomes of an acquire during which nobody else touches the lock: if it cannot be granted
at once it times out, or, without a timeout, never ends. -/
def acquire (lock : Lock) (mode : Mode) : Option (Except Error Lock) :=
  match lock.tryAcquire mode, lock.timeout with
  | some granted, _ => some (.ok granted)
  | none, some limit => some (.error (.timeout mode limit))
  | none, none => none

/-- Gives one hold back. -/
def release (lock : Lock) : Mode → Except Error Lock
  | .read =>
    if 0 < lock.readers then .ok { lock with readers := lock.readers - 1 }
    else .error (.notHeld .read)
  | .write => if lock.writer then .ok { lock with writer := false } else .error (.notHeld .write)

/-- Gives one hold back where there is one. -/
def releaseIfHeld (lock : Lock) (mode : Mode) : Lock :=
  match lock.release mode with
  | .ok released => released
  | .error _ => lock

/-- A read hold that is given back leaves no trace. -/
theorem releaseIfHeld_grant_read (lock : Lock) :
    (lock.grant .read).releaseIfHeld .read = lock := by
  simp [releaseIfHeld, release, grant]

/-- Calls off every acquire that waits. -/
def interrupt (lock : Lock) : Lock := { lock with epoch := lock.epoch + 1 }

def isLocked (lock : Lock) : Bool := lock.writer || 0 < lock.readers

def describe (lock : Lock) : String :=
  let timeout := match lock.timeout with
    | some limit => "Some(" ++ limit.describe ++ ")"
    | none => "None"
  "ObjectLock \x7b readers: " ++ toString lock.readers ++ ", writer: " ++ toString lock.writer
    ++ ", waiting_writers: " ++ toString lock.waitingWriters ++ ", timeout: " ++ timeout ++ " \x7d"

end Lock
end Folio
