import Mathlib.Data.Bool.Basic
import Folio.Proofs.Lock.Steps

/-! # A lock is safe

A `Course` is any sequence of steps at a lock that starts with the lock free and nobody
waiting, together with the events it came to.  **`Course.safe`** says what holds
throughout: holds for reading and for writing exclude one another, the lock's counts
agree with what was granted and given back and with who waits, and nothing but a grant
or a release changes who holds the lock.

The counts of those who wait are a matter of the room alone (`Orderly`); the counts of the
holds need the events as well (`Tallies`).
-/
namespace Folio.Lock

/-- The number of holds of a mode. -/
def holds (lock : Lock) : Mode → Nat
  | .read => lock.readers
  | .write => lock.writer.toNat

/-! ## The parts of a lock -/

section
variable (lock : Lock) (mode : Mode)

@[simp] theorem readers_enlist : (Room.enlist lock mode).readers = lock.readers := by
  cases mode <;> rfl

@[simp] theorem writer_enlist : (Room.enlist lock mode).writer = lock.writer := by
  cases mode <;> rfl

@[simp] theorem readers_dismiss : (Room.dismiss lock mode).readers = lock.readers := by
  cases mode <;> rfl

@[simp] theorem writer_dismiss : (Room.dismiss lock mode).writer = lock.writer := by
  cases mode <;> rfl

@[simp] theorem holds_enlist (m : Mode) : (Room.enlist lock mode).holds m = lock.holds m := by
  cases m <;> simp [holds]

@[simp] theorem holds_dismiss (m : Mode) : (Room.dismiss lock mode).holds m = lock.holds m := by
  cases m <;> simp [holds]

@[simp] theorem waitingWriters_grant :
    (lock.grant mode).waitingWriters = lock.waitingWriters := by
  cases mode <;> rfl

variable {lock mode}

/-- Who gives a hold back that exists changes nothing else. -/
theorem release_cases {lock' : Lock} (h : lock.release mode = .ok lock') :
    (mode = .read ∧ 0 < lock.readers ∧ lock' = { lock with readers := lock.readers - 1 }) ∨
      (mode = .write ∧ lock.writer = true ∧ lock' = { lock with writer := false }) := by
  cases mode with
  | read =>
    simp only [Lock.release] at h
    split at h
    · rename_i hpos
      cases h
      exact Or.inl ⟨rfl, hpos, rfl⟩
    · cases h
  | write =>
    simp only [Lock.release] at h
    split at h
    · rename_i hwriter
      cases h
      exact Or.inr ⟨rfl, hwriter, rfl⟩
    · cases h

theorem holds_grant (hwriter : lock.writer = false) (m : Mode) :
    (lock.grant mode).holds m = lock.holds m + if mode = m then 1 else 0 := by
  cases mode <;> cases m <;> simp [Lock.grant, holds, hwriter]

theorem holds_release {lock' : Lock} (h : lock.release mode = .ok lock') (m : Mode) :
    lock.holds m = lock'.holds m + if mode = m then 1 else 0 := by
  rcases release_cases h with ⟨rfl, hpos, rfl⟩ | ⟨rfl, hwriter, rfl⟩
  · cases m with
    | read => exact (Nat.sub_add_cancel hpos).symm
    | write => rfl
  · cases m with
    | read => rfl
    | write => simp [holds, hwriter]

/-- A grant that was possible leaves holds that exclude one another. -/
theorem alone_grant (hwriter : lock.writer = false) (hreaders : mode = .write → lock.readers = 0)
    (h : (lock.grant mode).writer = true) : (lock.grant mode).readers = 0 := by
  cases mode with
  | read => exact absurd (hwriter.symm.trans h) Bool.false_ne_true
  | write => exact hreaders rfl

theorem free_of_admits (h : lock.admits mode = true) :
    lock.writer = false ∧ (mode = .write → lock.readers = 0) := by
  cases mode <;> simp_all [Lock.admits]

/-- A lock that can be had for reading has no writer, neither one that holds it nor one that
waits. -/
theorem admits_read (h : lock.admits .read = true) :
    lock.writer = false ∧ lock.waitingWriters = 0 := by
  simpa [Lock.admits] using h

end

namespace Room

variable {κ : Type}

/-! ## Those who wait -/

/-- **A room in order.**  Holds exclude one another, the waiting writers are counted, and nobody
waits twice. -/
structure Orderly (room : Room κ) : Prop where
  alone : room.lock.writer = true → room.lock.readers = 0
  counted : room.lock.waitingWriters = room.waiters.countP (·.mode = .write)
  once : (room.waiters.map (·.caller)).Nodup

theorem orderly_new (timeout : Option Duration) :
    Orderly ({ lock := { timeout } } : Room κ) :=
  ⟨fun h => absurd h Bool.false_ne_true, rfl, List.nodup_nil⟩

section
variable [DecidableEq κ] {room after : Room κ} {w : Waiter κ} {step : Step κ}
  {event : Option (Event κ)}

/-- Whose acquire ends is the only one to go. -/
theorem Orderly.waiters_perm (ho : room.Orderly) (hw : w ∈ room.waiters) :
    room.waiters.Perm (w :: room.without w.caller) := by
  obtain ⟨front, back, hsplit⟩ := List.append_of_mem hw
  have hperm : room.waiters.Perm (w :: (front ++ back)) := hsplit ▸ List.perm_middle
  have honce := (hperm.map (·.caller)).nodup_iff.1 ho.once
  rw [List.map_cons, List.nodup_cons] at honce
  -- nobody else has the same caller, so the others are what the filter leaves
  have hothers : room.without w.caller = front ++ back := by
    rw [without, hsplit, List.filter_append, List.filter_cons_of_neg (by simp),
      ← List.filter_append]
    refine List.filter_eq_self.2 fun v hv => decide_eq_true fun heq => honce.1 ?_
    rw [← heq]
    exact List.mem_map_of_mem hv
  rwa [hothers]

omit [DecidableEq κ] in
/-- A writer that waits is counted. -/
theorem Orderly.pos (ho : room.Orderly) (hw : w ∈ room.waiters) (hmode : w.mode = .write) :
    0 < room.lock.waitingWriters := by
  rw [ho.counted]
  exact List.countP_pos_iff.2 ⟨w, hw, by simpa using hmode⟩

omit [DecidableEq κ] in
theorem Orderly.letIn (ho : room.Orderly) {mode : Mode} (free : room.lock.admits mode = true) :
    (room.letIn mode).Orderly := by
  obtain ⟨hwriter, hreaders⟩ := free_of_admits free
  exact ⟨alone_grant hwriter hreaders, (waitingWriters_grant ..).trans ho.counted, ho.once⟩

/-- **No step puts a room out of order.** -/
theorem Orderly.does (ho : room.Orderly) (hd : room.Does step event after)
    (ha : room.Allows step) : after.Orderly := by
  cases hd with
  | attempted free | arrived free => exact ho.letIn free
  | refused => exact ho
  | @blocked caller mode taken =>
    refine ⟨?_, ?_, ?_⟩
    · simpa [enqueue] using ho.alone
    · have hcounted := ho.counted
      cases mode <;> simp [enqueue, enlist, hcounted]
    · have hnew : ∀ other ∈ room.waiters.map (·.caller), other ≠ caller :=
        List.forall_mem_map.2 ha
      rw [enqueue, List.map_append, List.map_singleton, List.nodup_append]
      exact ⟨ho.once, by simp, by simpa using hnew⟩
  | released held =>
    rcases release_cases held with ⟨-, -, rfl⟩ | ⟨-, hwriter, rfl⟩
    · refine ⟨fun h => ?_, ho.counted, ho.once⟩
      have hnone := ho.alone h
      show room.lock.readers - 1 = 0
      omega
    · exact ⟨fun h => absurd h Bool.false_ne_true, ho.counted, ho.once⟩
  | notHeld => exact ho
  | stirred same =>
    obtain ⟨hlock, hwaiters⟩ := same
    refine ⟨?_, ?_, ?_⟩
    · rw [hlock]
      exact ho.alone
    · have hmodes := congrArg (List.countP (·.mode = .write)) hwaiters
      simp only [List.countP_map] at hmodes
      rw [hlock]
      exact ho.counted.trans hmodes.symm
    · have hcallers := congrArg (List.map (·.caller)) hwaiters
      simp only [List.map_map] at hcallers
      exact hcallers ▸ ho.once
  | @ended _ w result waits free =>
    have hperm := ho.waiters_perm waits
    have honce := (hperm.map (·.caller)).nodup_iff.1 ho.once
    have hleft : (dismiss room.lock w.mode).waitingWriters =
        (room.without w.caller).countP (·.mode = .write) := by
      have hcounted := ho.counted
      rw [hperm.countP_eq, List.countP_cons] at hcounted
      cases hmode : w.mode <;> simp_all [dismiss]
    cases result with
    | ok _ =>
      obtain ⟨hwriter, hreaders⟩ := free_of_admits (free rfl)
      refine ⟨alone_grant (by simpa using hwriter) (by simpa using hreaders), ?_, ?_⟩
      · exact (waitingWriters_grant ..).trans hleft
      · exact (List.nodup_cons.1 honce).2
    | error e =>
      refine ⟨?_, hleft, (List.nodup_cons.1 honce).2⟩
      simpa [conclude] using ho.alone

/-! ## What the events add up to -/

/-- **The events account for the lock.**  What was granted has been given back or is held, and what
was blocked has ended or waits. -/
structure Tallies (room : Room κ) (log : List (Event κ)) : Prop where
  holds : ∀ mode, log.countP (·.grants mode) = log.countP (·.releases mode) + room.lock.holds mode
  waiting : log.countP (·.blocks .write) =
    log.countP (·.ends .write) + room.lock.waitingWriters

variable {log : List (Event κ)}

/-- A step gives holds and takes holds as its event says. -/
theorem holds_does (hd : room.Does step event after) (m : Mode) :
    after.lock.holds m + event.toList.countP (·.releases m) =
      room.lock.holds m + event.toList.countP (·.grants m) := by
  cases hd with
  | attempted free | arrived free =>
    simp [Event.grants, Event.releases, letIn, holds_grant (free_of_admits free).1]
  | refused => simp [Event.grants, Event.releases]
  | blocked taken => simp [Event.grants, Event.releases, enqueue, Lock.holds]
  | released held => simp [Event.grants, Event.releases, holds_release held]
  | notHeld => simp [Event.grants, Event.releases]
  | stirred same =>
    rw [same.lock]
    rfl
  | @ended _ w result waits free =>
    cases result with
    | ok _ =>
      have hwriter : (dismiss room.lock w.mode).writer = false := by
        simpa using (free_of_admits (free rfl)).1
      simp [Event.grants, Event.releases, conclude, holds_grant hwriter]
    | error e => simp [Event.grants, Event.releases, conclude]

/-- A step counts writers in and out as its event says. -/
theorem waiting_does (ho : room.Orderly) (hd : room.Does step event after) :
    after.lock.waitingWriters + event.toList.countP (·.ends .write) =
      room.lock.waitingWriters + event.toList.countP (·.blocks .write) := by
  cases hd with
  | attempted free | arrived free => simp [Event.ends, Event.blocks, letIn]
  | refused => simp [Event.ends, Event.blocks]
  | @blocked caller mode taken => cases mode <;> simp [Event.ends, Event.blocks, enqueue, enlist]
  | released held =>
    rcases release_cases held with ⟨-, -, rfl⟩ | ⟨-, -, rfl⟩ <;> simp [Event.ends, Event.blocks]
  | notHeld => simp [Event.ends, Event.blocks]
  | stirred same =>
    rw [same.lock]
    rfl
  | @ended _ w result waits free =>
    -- what is counted out was counted in
    have hleft : (dismiss room.lock w.mode).waitingWriters +
        (if w.mode = .write then 1 else 0) = room.lock.waitingWriters := by
      cases hmode : w.mode with
      | read => rfl
      | write => exact Nat.sub_add_cancel (ho.pos waits hmode)
    cases result <;> simp [Event.ends, Event.blocks, conclude, hleft]

theorem Tallies.does (ht : room.Tallies log) (ho : room.Orderly)
    (hd : room.Does step event after) : after.Tallies (log ++ event.toList) := by
  refine ⟨fun mode => ?_, ?_⟩
  · have hbefore := ht.holds mode
    have hstep := holds_does hd mode
    rw [List.countP_append, List.countP_append]
    omega
  · have hbefore := ht.waiting
    have hstep := waiting_does ho hd
    rw [List.countP_append, List.countP_append]
    omega

/-- **A step that is neither a grant nor a release leaves the holds alone.** -/
theorem Does.kept (hd : room.Does step event after)
    (hquiet : ∀ e ∈ event, ∀ mode, e.grants mode = false ∧ e.releases mode = false) :
    after.lock.readers = room.lock.readers ∧ after.lock.writer = room.lock.writer := by
  have hsame (mode : Mode) : after.lock.holds mode = room.lock.holds mode := by
    have hstep := holds_does hd mode
    cases event with
    | none => exact hstep
    | some e =>
      obtain ⟨hgrants, hreleases⟩ := hquiet e rfl mode
      simpa [hgrants, hreleases] using hstep
  have hwriter : after.lock.writer.toNat = room.lock.writer.toNat := hsame .write
  refine ⟨hsame .read, ?_⟩
  rw [← Bool.ofNat_toNat after.lock.writer, hwriter, Bool.ofNat_toNat]

/-- **Nobody is let in to read while a writer holds the lock or waits for it.** -/
theorem Does.let_in {e : Event κ} (hd : room.Does step (some e) after)
    (hread : e.grants .read = true) :
    room.lock.writer = false ∧ room.lock.waitingWriters = 0 := by
  cases hd with
  | attempted free | arrived free =>
    obtain rfl := of_decide_eq_true hread
    exact admits_read free
  | @ended _ w result waits free =>
    cases result with
    | ok _ =>
      have hmode : w.mode = .read := of_decide_eq_true hread
      exact admits_read (hmode ▸ free rfl)
    | error e => cases hread
  | _ => cases hread

end

/-! ## A whole course -/

/-- **The states of a lock and what has happened at it.**  The lock is free at first, and nobody
waits. -/
inductive Course [DecidableEq κ] (timeout : Option Duration) : Room κ → List (Event κ) → Prop
  | opened : Course timeout { lock := { timeout } } []
  | step {room : Room κ} {log : List (Event κ)} (before : Course timeout room log) (step : Step κ)
      (allowed : room.Allows step) :
      Course timeout (room.perform step).2 (log ++ (room.perform step).1.toList)

namespace Course

variable [DecidableEq κ] {timeout : Option Duration} {room : Room κ} {log : List (Event κ)}

/-- **A course stays in order, and its events account for the lock.** -/
theorem keeps (course : Course timeout room log) : room.Orderly ∧ room.Tallies log := by
  induction course with
  | opened => exact ⟨orderly_new timeout, fun mode => by cases mode <;> rfl, rfl⟩
  | @step room log before step allowed ih =>
    have hd := room.perform_does step
    exact ⟨ih.1.does hd allowed, ih.2.does ih.1 hd⟩

/-- **What holds at a lock throughout.**  Nobody reads while somebody writes.  There are as many
read holds as were granted and not given back, and one write hold or none, likewise.  The writers
that are counted are those that wait, which were blocked and have not returned, so that each of
them can be counted out.  Whatever is done next lets nobody in to read while a writer holds the
lock or waits for it, and leaves the holds alone unless it is a grant or a release. -/
theorem safe (course : Course timeout room log) :
    (room.lock.writer = true → room.lock.readers = 0) ∧
    log.countP (·.grants .read) = log.countP (·.releases .read) + room.lock.readers ∧
    log.countP (·.grants .write) = log.countP (·.releases .write) + room.lock.writer.toNat ∧
    room.lock.waitingWriters = room.waiters.countP (·.mode = .write) ∧
    log.countP (·.blocks .write) = log.countP (·.ends .write) + room.lock.waitingWriters ∧
    (∀ w ∈ room.waiters, w.mode = .write → 0 < room.lock.waitingWriters) ∧
    ∀ step event after, room.perform step = (event, after) →
      ((∃ e ∈ event, e.grants .read = true) →
        room.lock.writer = false ∧ ∀ w ∈ room.waiters, w.mode = .read) ∧
      ((∀ e ∈ event, ∀ mode, e.grants mode = false ∧ e.releases mode = false) →
        after.lock.readers = room.lock.readers ∧ after.lock.writer = room.lock.writer) := by
  obtain ⟨ho, ht⟩ := course.keeps
  refine ⟨ho.alone, ht.holds .read, ht.holds .write, ho.counted, ht.waiting,
    fun w hw hmode => ho.pos hw hmode, fun step event after hstep => ?_⟩
  have hd := room.perform_does step
  rw [hstep] at hd
  refine ⟨?_, hd.kept⟩
  rintro ⟨e, rfl, hread⟩
  obtain ⟨hwriter, hnone⟩ := hd.let_in hread
  refine ⟨hwriter, fun w hw => ?_⟩
  -- a writer among the waiters would be counted
  cases hmode : w.mode with
  | read => rfl
  | write =>
    have hpos := ho.pos hw hmode
    omega

/-- A writer that had to wait for a reader holds the lock alone, and a reader that wakes meanwhile
goes on waiting. -/
theorem safe_while_writing : ∃ (room : Room Nat) (log : List (Event Nat)), Course none room log ∧
    room.waiters.map (·.caller) = [2] ∧ room.lock.writer = true ∧ room.lock.readers = 0 ∧
    log.countP (·.grants .write) = log.countP (·.releases .write) + 1 := by
  have free : Course none ({ lock := {} } : Room Nat) [] := .opened
  have reading := free.step (.arrive 0 .read) (by decide)
  have waiting := (reading.step (.arrive 1 .write) (by decide)).step (.arrive 2 .read) (by decide)
  have released := (waiting.step (.release .read) (by decide)).step .deliver (by decide)
  have writing := (released.step (.resume 2) (by decide)).step (.resume 1) (by decide)
  have hsafe := writing.safe
  exact ⟨_, _, writing, by decide, by decide, hsafe.1 (by decide), hsafe.2.2.1⟩

end Course
end Room
end Folio.Lock
