import Mathlib.Algebra.Group.Nat.Defs
import Folio.Proofs.Lock.Turns

/-! # Nobody oversleeps

A blocked acquire sleeps until it is woken, so it must not be left asleep when it could get on.
Three things let somebody on: a hold is given back, a waiting writer gives up, or all who wait are
called off.  Each of them posts a notice.  What posts none lets nobody on: a grant takes the lock
away from others, and a writer who leaves the queue by being granted the lock holds back the readers
that it held back before.

So each waiter is awake, is about to be woken, or has nothing to get up for (`Alert`), and every
step keeps that.  **`Follows.nobody_oversleeps`** is what it means where no notice is left.
-/
namespace Folio.Lock.Room

variable {κ : Type}

/-- **Each waiter is awake, is about to be woken, or could not get on.** -/
def Alert (room : Room κ) : Prop :=
  ∀ w ∈ room.waiters, w.awake = true ∨ 0 < room.notices ∨ verdict room.lock w = none

theorem alert_opened (timeout : Option Duration) : (opened timeout : Room κ).Alert :=
  fun _ hw => by cases hw

/-! ## What lets nobody on -/

section
variable {lock : Lock} {mode : Mode}

theorem admits_write_eq_false_iff :
    lock.admits .write = false ↔ lock.writer = true ∨ 0 < lock.readers := by
  cases hwriter : lock.writer <;> simp [Lock.admits, hwriter, Nat.pos_iff_ne_zero]

theorem admits_read_eq_false_iff :
    lock.admits .read = false ↔ lock.writer = true ∨ 0 < lock.waitingWriters := by
  cases hwriter : lock.writer <;> simp [Lock.admits, hwriter, Nat.pos_iff_ne_zero]

/-- Who could not have the lock cannot have it after a grant to somebody else. -/
theorem admits_grant_eq_false (h : lock.admits mode = false) (m : Mode) :
    (lock.grant m).admits mode = false := by
  cases m <;> cases mode <;> simp_all [Lock.admits, Lock.grant]

/-- The same if that one had waited: a writer that no longer waits holds the lock. -/
theorem admits_dismiss_grant_eq_false (h : lock.admits mode = false) (m : Mode) :
    ((dismiss lock m).grant m).admits mode = false := by
  cases m with
  | read => exact admits_grant_eq_false h .read
  | write => cases mode <;> rfl

theorem admits_enlist_eq_false (h : lock.admits mode = false) (m : Mode) :
    (enlist lock m).admits mode = false := by
  cases m <;> cases mode <;> simp_all [Lock.admits, enlist]

end

section
variable [DecidableEq κ] {room after : Room κ} {w : Waiter κ} {step : Step κ}
  {event : Option (Event κ)}

omit [DecidableEq κ] in
/-- Who had no reason to get up has none after a step that only takes the lock away. -/
theorem verdict_eq_none_of {lock lock' : Lock} (hepoch : lock'.epoch = lock.epoch)
    (hadmits : ∀ mode, lock.admits mode = false → lock'.admits mode = false)
    (h : verdict lock w = none) : verdict lock' w = none := by
  obtain ⟨hsame, htaken⟩ := verdict_eq_none_iff.1 h
  exact verdict_eq_none_iff.2 ⟨hsame.trans hepoch.symm, hadmits _ htaken⟩

omit [DecidableEq κ] in
theorem Alert.letIn (ha : room.Alert) (mode : Mode) : (room.letIn mode).Alert := fun w hw =>
  (ha w hw).imp_right (Or.imp_right (verdict_eq_none_of (by cases mode <;> rfl)
    fun _ h => admits_grant_eq_false h mode))

/-- **No step leaves anybody asleep who could get on.** -/
theorem Alert.takes (ha : room.Alert) (ho : room.Orderly) (ht : room.Takes step event after) :
    after.Alert := by
  cases ht with
  | attempted | arrived => exact ha.letIn _
  | refused | notHeld | idle => exact ha
  | @blocked caller mode taken =>
    have hepoch : (enlist room.lock mode).epoch = room.lock.epoch := by cases mode <;> rfl
    intro w hw
    rcases List.mem_append.1 hw with hw | hw
    · exact (ha w hw).imp_right (Or.imp_right (verdict_eq_none_of hepoch
        fun _ h => admits_enlist_eq_false h mode))
    · obtain rfl := List.mem_singleton.1 hw
      exact Or.inr (Or.inr (verdict_eq_none_iff.2
        ⟨hepoch.symm, admits_enlist_eq_false taken mode⟩))
  | released | interrupted | expired => exact fun w _ => Or.inr (Or.inl (Nat.succ_pos _))
  | delivered =>
    unfold deliver
    split
    · exact ha
    · exact List.forall_mem_map.2 fun w _ => Or.inl rfl
  | roused =>
    refine List.forall_mem_map.2 fun w hw => ?_
    split
    · exact Or.inl rfl
    · exact ha w hw
  | @dozed w waits undecided =>
    refine List.forall_mem_map.2 fun v hv => ?_
    split
    · rename_i hcaller
      rw [ho.eq_of_caller hv waits hcaller]
      exact Or.inr (Or.inr undecided)
    · exact ha v hv
  | @ended _ w result waits _ _ =>
    cases result with
    | error e => exact fun v _ => Or.inr (Or.inl (Nat.succ_pos _))
    | ok _ =>
      intro v hv
      exact (ha v (List.mem_filter.1 hv).1).imp_right (Or.imp_right (verdict_eq_none_of
        (epoch_conclude ..) fun _ h => admits_dismiss_grant_eq_false h w.mode))

/-- **A run leaves nobody asleep who could get on.** -/
theorem Follows.alert {deeds : List (Deed κ)} (run : room.Follows deeds after)
    (ho : room.Orderly) (ha : room.Alert) : after.Alert := by
  induction run with
  | start => exact ha
  | @step deeds now before step allowed ih =>
    exact ih.takes (before.orderly ho) (now.perform_takes step)

/-- **Nobody oversleeps.**  Where no notice is left to be delivered, a waiter that is asleep could not
have the lock: a writer waits for somebody who holds it, a reader for a writer that holds it or
waits.  Nor has it been called off without noticing: the lock's epoch is the one at which it
blocked, so the calls since then, if there were any, have gone round the 64 bits of the epoch. -/
theorem Follows.nobody_oversleeps {timeout : Option Duration} {deeds : List (Deed κ)}
    (run : (opened timeout).Follows deeds room) (hnone : room.notices = 0) (hw : w ∈ room.waiters)
    (hasleep : w.awake = false) :
    admitsWaiting room.lock w.mode = false ∧
    (w.mode = .write → room.lock.writer = true ∨ 0 < room.lock.readers) ∧
    (w.mode = .read → room.lock.writer = true ∨ ∃ v ∈ room.waiters, v.mode = .write) ∧
    w.epoch = room.lock.epoch ∧
    2 ^ 64 ∣ Deed.callsSince w.caller deeds := by
  have ho := run.orderly (orderly_new timeout)
  have hverdict : verdict room.lock w = none := by
    rcases run.alert (orderly_new timeout) (alert_opened timeout) w hw with h | h | h
    · exact absurd (hasleep.symm.trans h) Bool.false_ne_true
    · omega
    · exact h
  obtain ⟨hepoch, htaken⟩ := verdict_eq_none_iff.1 hverdict
  refine ⟨(admitsWaiting_eq ..).trans htaken, fun hmode => ?_, fun hmode => ?_, hepoch, ?_⟩
  · exact admits_write_eq_false_iff.1 (hmode ▸ htaken)
  · refine (admits_read_eq_false_iff.1 (hmode ▸ htaken)).imp_right fun hpos => ?_
    rw [ho.counted, List.countP_pos_iff] at hpos
    simpa using hpos
  · rcases run.waiter_cases hw with ⟨-, hdated⟩ | ⟨-, v, hv, -⟩
    · rw [hepoch, UInt64.left_eq_add] at hdated
      exact Nat.dvd_of_mod_eq_zero (congrArg UInt64.toNat hdated)
    · cases hv

end

/-- Two that were called off have gone, and a reader sleeps behind a writer that sleeps. -/
theorem Follows.nobody_oversleeps_behind_writer :
    let w : Waiter Nat := { caller := 4, mode := .read, epoch := 1 }
    ∃ deeds room, (opened none).Follows deeds room ∧ room.notices = 0 ∧ w ∈ room.waiters ∧
      w.awake = false ∧ room.lock.readers = 1 ∧ room.lock.writer = false ∧
      (∃ v ∈ room.waiters, v.mode = .write) ∧ w.epoch = room.lock.epoch ∧
      2 ^ 64 ∣ Deed.callsSince w.caller deeds := by
  intro w
  have free : (opened none : Room Nat).Follows [] (opened none) := .start
  have waiting := ((free.step (.arrive 0 .read) (by decide)).step (.arrive 1 .write)
    (by decide)).step (.arrive 2 .read) (by decide)
  have called := (waiting.step .interrupt (by decide)).step .deliver (by decide)
  have gone := (called.step (.resume 1) (by decide)).step (.resume 2) (by decide)
  have again := (gone.step (.arrive 3 .write) (by decide)).step (.arrive 4 .read) (by decide)
  have woken := (again.step .deliver (by decide)).step .deliver (by decide)
  have asleep := (woken.step (.resume 3) (by decide)).step (.resume 4) (by decide)
  obtain ⟨-, -, hreader, hepoch, hcalls⟩ :=
    asleep.nobody_oversleeps (by decide) (w := w) (by decide) rfl
  exact ⟨_, _, asleep, by decide, by decide, rfl, by decide, by decide,
    (hreader rfl).resolve_left (by decide), hepoch, hcalls⟩

end Folio.Lock.Room
