import Mathlib.Data.List.Perm.Basic
import Folio.Lock.Room

/-! # What can happen at a lock

Any number of callers use one lock: they try to take it, ask for it and block, give holds
back, interrupt those who wait; and those who wait are woken, with a notice or without
one, take their turns, or run out of time.  A `Step` is one of these, and nobody else can
come between its beginning and its end; so what callers do at the same time is some
sequence of steps.  `perform` takes a step and tells what it came to, as an `Event`.

**`perform_does`** says once what a step can do, case by case (`Does`).  What is proved of
locks goes through these cases and opens none of the functions again.
-/
namespace Folio.Lock

/-- What is done at a lock, one indivisible step each. -/
inductive Step (κ : Type) where
  /-- Somebody tries to take the lock and does not wait for it. -/
  | attempt (mode : Mode)
  /-- A caller asks for the lock, and blocks if it cannot be had. -/
  | arrive (caller : κ) (mode : Mode)
  /-- Somebody gives a hold back. -/
  | release (mode : Mode)
  /-- Somebody calls off all acquires that are blocked. -/
  | interrupt
  /-- A notice is delivered. -/
  | deliver
  /-- A blocked caller wakes without a notice. -/
  | rouse (caller : κ)
  /-- A woken caller takes its turn. -/
  | resume (caller : κ)
  /-- The time of a blocked caller runs out. -/
  | expire (caller : κ)
deriving DecidableEq, Repr

/-- What a step comes to for those who use the lock. -/
inductive Event (κ : Type) where
  /-- The lock was had at once. -/
  | granted (mode : Mode)
  /-- It could not be had, and nobody waits. -/
  | refused (mode : Mode)
  /-- It could not be had, and the caller waits. -/
  | blocked (caller : κ) (mode : Mode)
  /-- An acquire that was blocked returns. -/
  | ended (caller : κ) (mode : Mode) (result : Except Error Unit)
  | released (mode : Mode)
  | notHeld (mode : Mode)

namespace Event

variable {κ : Type}

/-- The event gives somebody a hold. -/
def grants (mode : Mode) : Event κ → Bool
  | granted m | ended _ m (.ok ()) => m = mode
  | _ => false

/-- The event takes a hold back. -/
def releases (mode : Mode) : Event κ → Bool
  | released m => m = mode
  | _ => false

/-- From this event on an acquire is blocked. -/
def blocks (mode : Mode) : Event κ → Bool
  | blocked _ m => m = mode
  | _ => false

/-- Up to this event an acquire was blocked. -/
def ends (mode : Mode) : Event κ → Bool
  | ended _ m _ => m = mode
  | _ => false

end Event

namespace Room

variable {κ : Type} [DecidableEq κ]

/-- An ending as an event. -/
def ended? (room : Room κ) (ending : Option (Ending κ)) : Option (Event κ) := do
  let e ← ending
  let w ← room.waiters.find? (·.caller = e.caller)
  return .ended w.caller w.mode e.result

/-- What a step comes to, and the room after it. -/
def perform (room : Room κ) : Step κ → Option (Event κ) × Room κ
  | .attempt mode =>
    let (granted, after) := room.attempt mode
    (some (if granted then .granted mode else .refused mode), after)
  | .arrive caller mode =>
    let (granted, after) := room.arrive caller mode
    (some (if granted then .granted mode else .blocked caller mode), after)
  | .release mode =>
    match room.release mode with
    | .ok after => (some (.released mode), after)
    | .error _ => (some (.notHeld mode), room)
  | .interrupt => (none, room.interrupt)
  | .deliver => (none, room.deliver)
  | .rouse caller => (none, room.rouse caller)
  | .resume caller => (room.ended? (room.resume caller).1, (room.resume caller).2)
  | .expire caller => (room.ended? (room.expire caller).1, (room.expire caller).2)

/-- A caller whose acquire is blocked does not ask again before it has returned. -/
def Allows (room : Room κ) : Step κ → Prop
  | .arrive caller _ => ∀ w ∈ room.waiters, w.caller ≠ caller
  | _ => True

instance (room : Room κ) (step : Step κ) : Decidable (room.Allows step) := by
  unfold Allows
  split <;> infer_instance

/-! ## What a step can do -/

/-- The waiters are the same, whether asleep or awake, and the lock has changed in nothing but its
epoch. -/
structure Stirred (room after : Room κ) : Prop where
  lock : after.lock = { room.lock with epoch := after.lock.epoch }
  waiters : after.waiters.map (·.setAwake false) = room.waiters.map (·.setAwake false)

/-- The room after somebody was granted the lock at once. -/
def letIn (room : Room κ) (mode : Mode) : Room κ :=
  { room with lock := room.lock.grant mode }

/-- The room after a caller has blocked. -/
def enqueue (room : Room κ) (caller : κ) (mode : Mode) : Room κ :=
  { room with
    lock := enlist room.lock mode
    waiters := room.waiters ++ [{ caller, mode, epoch := room.lock.epoch }] }

/-- **What a step can do.** -/
inductive Does (room : Room κ) : Step κ → Option (Event κ) → Room κ → Prop
  | attempted {mode : Mode} (free : room.lock.admits mode = true) :
      Does room (.attempt mode) (some (.granted mode)) (room.letIn mode)
  | arrived {caller : κ} {mode : Mode} (free : room.lock.admits mode = true) :
      Does room (.arrive caller mode) (some (.granted mode)) (room.letIn mode)
  | refused {mode : Mode} : Does room (.attempt mode) (some (.refused mode)) room
  | blocked {caller : κ} {mode : Mode} (taken : room.lock.admits mode = false) :
      Does room (.arrive caller mode) (some (.blocked caller mode)) (room.enqueue caller mode)
  | released {mode : Mode} {lock : Lock} (held : room.lock.release mode = .ok lock) :
      Does room (.release mode) (some (.released mode))
        { room with lock, notices := room.notices + 1 }
  | notHeld {mode : Mode} : Does room (.release mode) (some (.notHeld mode)) room
  | stirred {step : Step κ} {after : Room κ} (same : room.Stirred after) :
      Does room step none after
  | ended {step : Step κ} {w : Waiter κ} {result : Except Error Unit} (waits : w ∈ room.waiters)
      (free : result = .ok () → room.lock.admits w.mode = true) :
      Does room step (some (.ended w.caller w.mode result)) (room.conclude w result).2

/-! ## Every step does one of these -/

section
variable {room : Room κ} {w : Waiter κ} {caller : κ} {result : Except Error Unit}

omit [DecidableEq κ] in
theorem Stirred.refl (room : Room κ) : room.Stirred room := ⟨rfl, rfl⟩

omit [DecidableEq κ] in
/-- Waking somebody, or sending him back to sleep, changes nothing else about the waiters. -/
theorem map_setAwake_of (f : Waiter κ → Waiter κ)
    (hf : ∀ v, (f v).setAwake false = v.setAwake false) (waiters : List (Waiter κ)) :
    (waiters.map f).map (·.setAwake false) = waiters.map (·.setAwake false) := by
  rw [List.map_map]
  exact List.map_congr_left fun v _ => hf v

/-- A waiting writer is held back by what would hold it back if it came now, and by nothing else. -/
theorem admitsWaiting_eq (lock : Lock) (mode : Mode) :
    admitsWaiting lock mode = lock.admits mode := by
  cases mode <;> rfl

/-- The waiter that a caller's turn is about. -/
theorem mem_of_find? (h : room.waiters.find? (·.caller = caller) = some w) :
    w ∈ room.waiters ∧ w.caller = caller :=
  ⟨List.mem_of_find?_eq_some h, by simpa using List.find?_some h⟩

theorem ended?_conclude (h : room.waiters.find? (·.caller = caller) = some w)
    (result : Except Error Unit) :
    room.ended? (room.conclude w result).1 = some (.ended w.caller w.mode result) := by
  obtain ⟨-, rfl⟩ := mem_of_find? h
  cases result <;> simp [ended?, conclude, h]

theorem recheck_does {step : Step κ} (h : room.waiters.find? (·.caller = caller) = some w)
    (otherwise : Option Error) :
    Does room step (room.ended? (room.recheck w otherwise).1) (room.recheck w otherwise).2 := by
  have hw := (mem_of_find? h).1
  unfold recheck
  split
  · rw [ended?_conclude h]
    exact .ended hw (by simp)
  split
  · rename_i hfree
    rw [ended?_conclude h]
    exact .ended hw fun _ => admitsWaiting_eq room.lock w.mode ▸ hfree
  cases otherwise with
  | some e =>
    dsimp only
    rw [ended?_conclude h]
    exact .ended hw (by simp)
  | none =>
    refine .stirred ⟨rfl, map_setAwake_of _ (fun v => ?_) _⟩
    split <;> rfl

end

omit [DecidableEq κ] in
/-- A caller is granted the lock at once, or blocks. -/
theorem arrive_cases (room : Room κ) (caller : κ) (mode : Mode) :
    (room.lock.admits mode = true ∧ room.arrive caller mode = (true, room.letIn mode)) ∨
      (room.lock.admits mode = false ∧
        room.arrive caller mode = (false, room.enqueue caller mode)) := by
  unfold arrive tryAcquire
  cases hfree : room.lock.admits mode with
  | false => exact Or.inr ⟨rfl, rfl⟩
  | true => exact Or.inl ⟨rfl, rfl⟩

/-- **Every step does one of these things.** -/
theorem perform_does (room : Room κ) (step : Step κ) :
    Does room step (room.perform step).1 (room.perform step).2 := by
  cases step with
  | attempt mode =>
    cases hfree : room.lock.admits mode with
    | false => simpa [perform, attempt, tryAcquire, hfree] using .refused
    | true => simpa [perform, attempt, tryAcquire, hfree] using .attempted hfree
  | arrive caller mode =>
    rcases room.arrive_cases caller mode with ⟨hfree, harrive⟩ | ⟨hfree, harrive⟩
    · simpa only [perform, harrive] using .arrived hfree
    · simpa only [perform, harrive] using .blocked hfree
  | release mode =>
    cases hheld : room.lock.release mode with
    | error e => simpa [perform, release, hheld, Except.map] using .notHeld
    | ok lock => simpa [perform, release, hheld, Except.map] using .released hheld
  | interrupt => exact .stirred ⟨rfl, rfl⟩
  | deliver =>
    simp only [perform, deliver]
    split
    · exact .stirred (.refl room)
    · exact .stirred ⟨rfl, map_setAwake_of (·.setAwake true) (fun _ => rfl) _⟩
  | rouse caller =>
    refine .stirred ⟨rfl, map_setAwake_of _ (fun v => ?_) _⟩
    split <;> rfl
  | resume caller =>
    simp only [perform, resume]
    split
    · rename_i w hfind
      split
      · exact recheck_does hfind none
      · exact .stirred (.refl room)
    · exact .stirred (.refl room)
  | expire caller =>
    simp only [perform, expire]
    split
    · rename_i w limit hfind _
      exact recheck_does hfind _
    · exact .stirred (.refl room)

/-- A caller that blocks and runs out of time before anybody else comes leaves the room as it was,
but for a notice. -/
theorem expire_enqueue {room : Room κ} {caller : κ} {mode : Mode} {limit : Duration}
    (hnew : ∀ w ∈ room.waiters, w.caller ≠ caller) (htaken : room.lock.admits mode = false)
    (hlimit : room.lock.timeout = some limit) :
    (room.enqueue caller mode).perform (.expire caller) =
      (some (.ended caller mode (.error (.timeout mode limit))),
        { room with notices := room.notices + 1 }) := by
  have hfind : (room.enqueue caller mode).waiters.find? (·.caller = caller) =
      some { caller, mode, epoch := room.lock.epoch } := by
    have hnone : room.waiters.find? (·.caller = caller) = none :=
      List.find?_eq_none.2 fun w hw => by simpa using hnew w hw
    simp [enqueue, hnone]
  have hwithout : (room.enqueue caller mode).without caller = room.waiters := by
    have hall : room.waiters.filter (·.caller ≠ caller) = room.waiters :=
      List.filter_eq_self.2 fun w hw => by simpa using hnew w hw
    simpa [without, enqueue] using hall
  have hwaits : admitsWaiting (enlist room.lock mode) mode = false := by
    cases mode <;> simpa [admitsWaiting, enlist, Lock.admits] using htaken
  have htimeout : (room.enqueue caller mode).lock.timeout = some limit := by
    cases mode <;> exact hlimit
  have hepoch : (room.enqueue caller mode).lock.epoch = room.lock.epoch := by
    cases mode <;> rfl
  have hlock : dismiss (enlist room.lock mode) mode = room.lock := by
    cases mode <;> simp [dismiss, enlist]
  have hexpire : (room.enqueue caller mode).expire caller =
      (room.enqueue caller mode).conclude { caller, mode, epoch := room.lock.epoch }
        (.error (.timeout mode limit)) := by
    simp only [expire, hfind, htimeout, recheck, hepoch]
    rw [if_neg (not_not_intro rfl), if_neg]
    exact Bool.eq_false_iff.1 hwaits
  rw [perform, hexpire, ended?_conclude hfind, conclude, hwithout]
  simp only [enqueue, hlock]

end Room
end Folio.Lock
