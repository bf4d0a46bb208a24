import Mathlib.Data.List.Induction
import Mathlib.Data.List.Nodup
import Folio.Proofs.Lock.Safety

/-! # Turns at a lock

`Does` says what a step means for the holds and for the counts, and leaves open who sleeps, who has
been called off and why an acquire ends.  Here is the rest.  A waiter that looks at the lock comes
to a **verdict** on its acquire, which is a matter of the lock and of the epoch at which the acquire
blocked; without one it goes back to sleep.  **`perform_takes`** says once more what a step can do,
now down to who is awake (`Takes`), and all that is proved of those who wait goes through its cases.

A `Deed` is a step together with what it came to, and `Follows` is any sequence of deeds between two
states of a room.
-/
namespace Folio.Lock

/-- The step calls off all acquires that are blocked. -/
def Step.callsOff {κ : Type} : Step κ → Bool
  | interrupt => true
  | _ => false

/-- The event says that an acquire of `caller` blocks. -/
def Event.blocksCaller {κ : Type} [DecidableEq κ] (caller : κ) : Event κ → Bool
  | blocked c _ => c = caller
  | _ => false

/-- The result with which the event ends an acquire of `caller`. -/
def Event.result? {κ : Type} [DecidableEq κ] (caller : κ) : Event κ → Option (Except Error Unit)
  | ended c _ result => if c = caller then some result else none
  | _ => none

/-- A step that was taken, and what it came to. -/
structure Deed (κ : Type) where
  step : Step κ
  event : Option (Event κ)

namespace Deed

variable {κ : Type}

/-- How often those who wait were called off. -/
def calls (deeds : List (Deed κ)) : Nat := deeds.countP (·.step.callsOff)

theorem calls_concat (deeds : List (Deed κ)) (deed : Deed κ) :
    calls (deeds ++ [deed]) = calls deeds + deed.step.callsOff.toNat := by
  cases hstep : deed.step.callsOff <;> simp [calls, hstep]

variable [DecidableEq κ]

/-- An acquire of `caller` blocks. -/
def blocks (deed : Deed κ) (caller : κ) : Bool := deed.event.any (·.blocksCaller caller)

/-- An acquire of `caller` blocked in one of these deeds. -/
def Blocked (caller : κ) (deeds : List (Deed κ)) : Prop := ∃ deed ∈ deeds, deed.blocks caller = true

/-- How often those who wait were called off since the latest acquire of `caller` blocked, or in all
of these deeds if none did. -/
def callsSince (caller : κ) (deeds : List (Deed κ)) : Nat :=
  deeds.foldl (fun n deed => if deed.blocks caller then 0 else n + deed.step.callsOff.toNat) 0

/-- The result with which the deed ends an acquire of `caller`. -/
def result? (deed : Deed κ) (caller : κ) : Option (Except Error Unit) :=
  deed.event.bind (·.result? caller)

/-- How an acquire of `caller` first returned in these deeds.  If `caller` waited before them, it is
that acquire. -/
def returned? (caller : κ) (deeds : List (Deed κ)) : Option (Except Error Unit) :=
  deeds.findSome? (·.result? caller)

theorem blocks_blocked (step : Step κ) (caller : κ) (mode : Mode) :
    (⟨step, some (.blocked caller mode)⟩ : Deed κ).blocks caller = true := decide_eq_true rfl

variable {caller : κ} {deeds : List (Deed κ)} {deed : Deed κ}

theorem blocked_concat :
    Blocked caller (deeds ++ [deed]) ↔ Blocked caller deeds ∨ deed.blocks caller = true := by
  simp only [Blocked, List.mem_append, List.mem_singleton, or_and_right, exists_or, exists_eq_left]

theorem callsSince_concat_of_blocks (h : deed.blocks caller = true) :
    callsSince caller (deeds ++ [deed]) = 0 := by
  rw [callsSince, List.foldl_concat, if_pos h]

theorem callsSince_concat (h : deed.blocks caller = false) :
    callsSince caller (deeds ++ [deed]) = callsSince caller deeds + deed.step.callsOff.toNat := by
  rw [callsSince, List.foldl_concat, if_neg (Bool.eq_false_iff.1 h)]
  rfl

theorem callsSince_le (caller : κ) (deeds : List (Deed κ)) :
    callsSince caller deeds ≤ calls deeds := by
  induction deeds using List.reverseRecOn with
  | nil => exact Nat.le_refl 0
  | append_singleton deeds deed ih =>
    rw [calls_concat]
    cases hblocks : deed.blocks caller with
    | true =>
      rw [callsSince_concat_of_blocks hblocks]
      exact Nat.zero_le _
    | false =>
      rw [callsSince_concat hblocks]
      exact Nat.add_le_add_right ih _

theorem returned?_concat (caller : κ) (deeds : List (Deed κ)) (deed : Deed κ) :
    returned? caller (deeds ++ [deed]) = (returned? caller deeds).or (deed.result? caller) := by
  rw [returned?, List.findSome?_append, List.findSome?_singleton]
  rfl

end Deed

namespace Room

variable {κ : Type}

/-- How the acquire of a waiter ends that looks at the lock now, or `none` if it waits on.  Being
called off comes before being granted. -/
def verdict (lock : Lock) (w : Waiter κ) : Option (Except Error Unit) :=
  if w.epoch ≠ lock.epoch then some (.error (.interrupted w.mode))
  else if lock.admits w.mode then some (.ok ())
  else none

theorem verdict_eq_none_iff {lock : Lock} {w : Waiter κ} :
    verdict lock w = none ↔ w.epoch = lock.epoch ∧ lock.admits w.mode = false := by
  unfold verdict
  split_ifs <;> simp_all

theorem verdict_cases {lock : Lock} {w : Waiter κ} {result : Except Error Unit}
    (h : verdict lock w = some result) :
    (w.epoch ≠ lock.epoch ∧ result = .error (.interrupted w.mode)) ∨
      (w.epoch = lock.epoch ∧ lock.admits w.mode = true ∧ result = .ok ()) := by
  unfold verdict at h
  split_ifs at h <;> simp_all

theorem verdict_called_off {lock : Lock} {w : Waiter κ} (h : w.epoch ≠ lock.epoch) :
    verdict lock w = some (.error (.interrupted w.mode)) := if_pos h

/-- Somebody who was not called off is let in or waits on. -/
theorem verdict_of_epoch {lock : Lock} {w : Waiter κ} (h : w.epoch = lock.epoch) :
    verdict lock w = if lock.admits w.mode then some (.ok ()) else none :=
  if_neg (not_not_intro h)

variable [DecidableEq κ]

/-- The room after a waiter has gone back to sleep. -/
def lull (room : Room κ) (caller : κ) : Room κ :=
  { room with waiters := room.waiters.map fun w =>
      if w.caller = caller then w.setAwake false else w }

/-- **What a step can do**, down to who is awake. -/
inductive Takes (room : Room κ) : Step κ → Option (Event κ) → Room κ → Prop
  | attempted {mode : Mode} (free : room.lock.admits mode = true) :
      Takes room (.attempt mode) (some (.granted mode)) (room.letIn mode)
  | arrived {caller : κ} {mode : Mode} (free : room.lock.admits mode = true) :
      Takes room (.arrive caller mode) (some (.granted mode)) (room.letIn mode)
  | refused {mode : Mode} : Takes room (.attempt mode) (some (.refused mode)) room
  | blocked {caller : κ} {mode : Mode} (taken : room.lock.admits mode = false) :
      Takes room (.arrive caller mode) (some (.blocked caller mode)) (room.enqueue caller mode)
  | released {mode : Mode} {lock : Lock} (held : room.lock.release mode = .ok lock) :
      Takes room (.release mode) (some (.released mode))
        { room with lock, notices := room.notices + 1 }
  | notHeld {mode : Mode} : Takes room (.release mode) (some (.notHeld mode)) room
  | interrupted : Takes room .interrupt none room.interrupt
  | delivered : Takes room .deliver none room.deliver
  | roused {caller : κ} : Takes room (.rouse caller) none (room.rouse caller)
  /-- Whose turn it is does not wait, or is asleep, or has all the time there is. -/
  | idle {step : Step κ} {caller : κ} (turn : step = .resume caller ∨ step = .expire caller) :
      Takes room step none room
  | dozed {w : Waiter κ} (waits : w ∈ room.waiters) (undecided : verdict room.lock w = none) :
      Takes room (.resume w.caller) none (room.lull w.caller)
  | ended {step : Step κ} {w : Waiter κ} {result : Except Error Unit} (waits : w ∈ room.waiters)
      (turn : step = .resume w.caller ∨ step = .expire w.caller)
      (decided : verdict room.lock w = some result) :
      Takes room step (some (.ended w.caller w.mode result)) (room.conclude w result).2
  | expired {w : Waiter κ} {limit : Duration} (waits : w ∈ room.waiters)
      (undecided : verdict room.lock w = none) (timed : room.lock.timeout = some limit) :
      Takes room (.expire w.caller)
        (some (.ended w.caller w.mode (.error (.timeout w.mode limit))))
        (room.conclude w (.error (.timeout w.mode limit))).2

section
variable {room : Room κ} {w : Waiter κ} {caller : κ} {result : Except Error Unit}

/-! ## Turns -/

/-- A turn without a limit follows the verdict. -/
theorem recheck_none (room : Room κ) (w : Waiter κ) :
    room.recheck w none =
      match verdict room.lock w with
      | some result => room.conclude w result
      | none => (none, room.lull w.caller) := by
  unfold recheck verdict
  rw [admitsWaiting_eq]
  split_ifs <;> rfl

/-- A turn with a limit follows the verdict, and ends without one as well. -/
theorem recheck_some (room : Room κ) (w : Waiter κ) (e : Error) :
    room.recheck w (some e) = room.conclude w ((verdict room.lock w).getD (.error e)) := by
  unfold recheck verdict
  rw [admitsWaiting_eq]
  split_ifs <;> rfl

theorem perform_resume (h : room.waiters.find? (·.caller = caller) = some w) (hawake : w.awake) :
    room.perform (.resume caller) =
      match verdict room.lock w with
      | some result => (some (.ended w.caller w.mode result), (room.conclude w result).2)
      | none => (none, room.lull w.caller) := by
  have hresume : room.resume caller = room.recheck w none := by
    simp only [resume, h, hawake, if_true]
  rw [perform, hresume, recheck_none]
  cases verdict room.lock w with
  | none => rfl
  | some result => rw [ended?_conclude h]

theorem perform_expire (h : room.waiters.find? (·.caller = caller) = some w) {limit : Duration}
    (hlimit : room.lock.timeout = some limit) :
    room.perform (.expire caller) =
      let result := (verdict room.lock w).getD (.error (.timeout w.mode limit))
      (some (.ended w.caller w.mode result), (room.conclude w result).2) := by
  have hexpire : room.expire caller = room.recheck w (some (.timeout w.mode limit)) := by
    simp only [expire, h, hlimit]
  rw [perform, hexpire, recheck_some, ended?_conclude h]

/-- A turn that is nobody's changes nothing. -/
theorem perform_resume_idle (h : ∀ w ∈ room.waiters.find? (·.caller = caller), w.awake = false) :
    room.perform (.resume caller) = (none, room) := by
  have hresume : room.resume caller = (none, room) := by
    unfold resume
    split
    · rename_i w hfind
      rw [if_neg (Bool.eq_false_iff.1 (h w hfind))]
    · rfl
  rw [perform, hresume]
  rfl

theorem perform_expire_idle
    (h : room.waiters.find? (·.caller = caller) = none ∨ room.lock.timeout = none) :
    room.perform (.expire caller) = (none, room) := by
  have hexpire : room.expire caller = (none, room) := by
    unfold expire
    split
    · rename_i w limit hfind hlimit
      rcases h with h | h
      · cases hfind.symm.trans h
      · cases hlimit.symm.trans h
    · rfl
  rw [perform, hexpire]
  rfl

theorem resume_takes (room : Room κ) (caller : κ) :
    Takes room (.resume caller) (room.perform (.resume caller)).1
      (room.perform (.resume caller)).2 := by
  cases hfind : room.waiters.find? (·.caller = caller) with
  | none =>
    rw [perform_resume_idle (by simp [hfind])]
    exact .idle (Or.inl rfl)
  | some w =>
    obtain ⟨hw, hcaller⟩ := mem_of_find? hfind
    cases hawake : w.awake with
    | false =>
      rw [perform_resume_idle (by simp [hfind, hawake])]
      exact .idle (Or.inl rfl)
    | true =>
      rw [perform_resume hfind hawake]
      cases hverdict : verdict room.lock w with
      | none => exact hcaller ▸ .dozed hw hverdict
      | some result => exact .ended hw (Or.inl (hcaller ▸ rfl)) hverdict

theorem expire_takes (room : Room κ) (caller : κ) :
    Takes room (.expire caller) (room.perform (.expire caller)).1
      (room.perform (.expire caller)).2 := by
  cases hfind : room.waiters.find? (·.caller = caller) with
  | none =>
    rw [perform_expire_idle (Or.inl hfind)]
    exact .idle (Or.inr rfl)
  | some w =>
    obtain ⟨hw, hcaller⟩ := mem_of_find? hfind
    cases hlimit : room.lock.timeout with
    | none =>
      rw [perform_expire_idle (Or.inr hlimit)]
      exact .idle (Or.inr rfl)
    | some limit =>
      rw [perform_expire hfind hlimit]
      cases hverdict : verdict room.lock w with
      | none => exact hcaller ▸ .expired hw hverdict hlimit
      | some result => exact .ended hw (Or.inr (hcaller ▸ rfl)) hverdict

/-- **Every step does one of these things.** -/
theorem perform_takes (room : Room κ) (step : Step κ) :
    Takes room step (room.perform step).1 (room.perform step).2 := by
  cases step with
  | attempt mode =>
    cases hfree : room.lock.admits mode with
    | false => simpa [perform, attempt, tryAcquire, hfree] using .refused
    | true => simpa [perform, attempt, tryAcquire, hfree] using .attempted hfree
  | arrive caller mode =>
    rcases room.arrive_cases caller mode with ⟨hfree, harrive⟩ | ⟨hfree, harrive⟩
    · simpa only [perform, harrive] using .arrived hfree
    · simpa only [perform, harrive] using .blocked hfree
  | release mode =>
    cases hheld : room.lock.release mode with
    | error e => simpa [perform, release, hheld, Except.map] using .notHeld
    | ok lock => simpa [perform, release, hheld, Except.map] using .released hheld
  | interrupt => exact .interrupted
  | deliver => exact .delivered
  | rouse caller => exact .roused
  | resume caller => exact resume_takes room caller
  | expire caller => exact expire_takes room caller

end

/-! ## What a step leaves of the waiters -/

@[simp] theorem waiters_conclude (room : Room κ) (w : Waiter κ) (result : Except Error Unit) :
    (room.conclude w result).2.waiters = room.without w.caller := by
  cases result <;> rfl

@[simp] theorem epoch_conclude (room : Room κ) (w : Waiter κ) (result : Except Error Unit) :
    (room.conclude w result).2.lock.epoch = room.lock.epoch := by
  cases result <;> cases hmode : w.mode <;> simp [conclude, dismiss, Lock.grant, hmode]

section
variable {room after : Room κ} {step : Step κ} {event : Option (Event κ)}

/-- The epoch changes by being called off, and by nothing else. -/
theorem Takes.epoch_eq (ht : room.Takes step event after) :
    after.lock.epoch = room.lock.epoch + UInt64.ofNat step.callsOff.toNat := by
  have hsame : room.lock.epoch = room.lock.epoch + UInt64.ofNat 0 := (UInt64.add_zero _).symm
  cases ht with
  | @attempted mode | @arrived _ mode => cases mode <;> exact hsame
  | refused | notHeld => exact hsame
  | @blocked _ mode => cases mode <;> exact hsame
  | released held => rcases release_cases held with ⟨-, -, rfl⟩ | ⟨-, -, rfl⟩ <;> exact hsame
  | interrupted => rfl
  | delivered =>
    simp only [deliver]
    split <;> exact hsame
  | roused | dozed => exact hsame
  | idle turn => rcases turn with rfl | rfl <;> exact hsame
  | @ended _ w result _ turn _ =>
    rw [epoch_conclude]
    rcases turn with rfl | rfl <;> exact hsame
  | expired =>
    rw [epoch_conclude]
    exact hsame

omit [DecidableEq κ] in
/-- Waking somebody, or sending him back to sleep, makes nobody of him else. -/
theorem exists_of_mem_map_setAwake {f : Waiter κ → Waiter κ}
    (hf : ∀ w, (f w).setAwake false = w.setAwake false) {waiters : List (Waiter κ)}
    {v : Waiter κ} (hv : v ∈ waiters.map f) :
    ∃ w ∈ waiters, v.setAwake false = w.setAwake false := by
  obtain ⟨w, hw, rfl⟩ := List.mem_map.1 hv
  exact ⟨w, hw, hf w⟩

/-- **Who waits after a step** has just blocked, or waited before it. -/
theorem Takes.waiter_cases (ht : room.Takes step event after) {v : Waiter κ}
    (hv : v ∈ after.waiters) :
    (step = .arrive v.caller v.mode ∧ event = some (.blocked v.caller v.mode) ∧
        v.epoch = room.lock.epoch) ∨
      ∃ w ∈ room.waiters, v.setAwake false = w.setAwake false := by
  cases ht with
  | attempted | arrived | refused | released | notHeld | interrupted | idle =>
    exact Or.inr ⟨v, hv, rfl⟩
  | blocked =>
    rcases List.mem_append.1 hv with hv | hv
    · exact Or.inr ⟨v, hv, rfl⟩
    · obtain rfl := List.mem_singleton.1 hv
      exact Or.inl ⟨rfl, rfl, rfl⟩
  | delivered =>
    simp only [deliver] at hv
    split at hv
    · exact Or.inr ⟨v, hv, rfl⟩
    · exact Or.inr (exists_of_mem_map_setAwake (f := (·.setAwake true)) (fun _ => rfl) hv)
  | roused | dozed =>
    refine Or.inr (exists_of_mem_map_setAwake (fun w => ?_) hv)
    split <;> rfl
  | ended | expired =>
    rw [waiters_conclude] at hv
    exact Or.inr ⟨v, (List.mem_filter.1 hv).1, rfl⟩

/-- Who waits does not block. -/
theorem Takes.not_blocks (ht : room.Takes step event after) (ha : room.Allows step)
    {w : Waiter κ} (hw : w ∈ room.waiters) :
    (⟨step, event⟩ : Deed κ).blocks w.caller = false := by
  cases ht with
  | blocked => exact decide_eq_false (ha w hw).symm
  | _ => rfl

omit [DecidableEq κ] in
/-- A waiter is who it was, whether asleep or awake. -/
theorem eq_of_setAwake {v w : Waiter κ} (h : v.setAwake false = w.setAwake false) :
    v.caller = w.caller ∧ v.mode = w.mode ∧ v.epoch = w.epoch := by
  obtain ⟨hcaller, hmode, hepoch, -⟩ := Waiter.mk.inj h
  exact ⟨hcaller, hmode, hepoch⟩

omit [DecidableEq κ] in
/-- Nobody else waits under the name of a waiter. -/
theorem Orderly.eq_of_caller (ho : room.Orderly) {v w : Waiter κ} (hv : v ∈ room.waiters)
    (hw : w ∈ room.waiters) (h : v.caller = w.caller) : v = w :=
  List.inj_on_of_nodup_map ho.once hv hw h

theorem Orderly.find?_eq (ho : room.Orderly) {w : Waiter κ} (hw : w ∈ room.waiters) :
    room.waiters.find? (·.caller = w.caller) = some w := by
  cases hfind : room.waiters.find? (·.caller = w.caller) with
  | none => exact absurd (List.find?_eq_none.1 hfind w hw) (by simp)
  | some v =>
    obtain ⟨hv, hcaller⟩ := mem_of_find? hfind
    rw [ho.eq_of_caller hv hw hcaller]

/-- Who is not concerned goes on waiting. -/
theorem mem_without {v : Waiter κ} (hv : v ∈ room.waiters) {caller : κ} (h : v.caller ≠ caller) :
    v ∈ room.without caller :=
  List.mem_filter.2 ⟨hv, decide_eq_true h⟩

/-- **Who waits before a step** waits after it, or returns by its own verdict or for want of
time. -/
theorem Takes.stays_or_ends (ht : room.Takes step event after) (ho : room.Orderly)
    {w : Waiter κ} (hw : w ∈ room.waiters) :
    ((⟨step, event⟩ : Deed κ).result? w.caller = none ∧
        ∃ v ∈ after.waiters, v.setAwake false = w.setAwake false) ∨
      ∃ result, event = some (.ended w.caller w.mode result) ∧
        after = (room.conclude w result).2 ∧
        (verdict room.lock w = some result ∨
          verdict room.lock w = none ∧
            ∃ limit, step = .expire w.caller ∧ result = .error (.timeout w.mode limit)) := by
  cases ht with
  | attempted | arrived | refused | released | notHeld | interrupted | idle =>
    exact Or.inl ⟨rfl, w, hw, rfl⟩
  | blocked => exact Or.inl ⟨rfl, w, List.mem_append_left _ hw, rfl⟩
  | delivered =>
    refine Or.inl ⟨rfl, ?_⟩
    unfold deliver
    split
    · exact ⟨w, hw, rfl⟩
    · exact ⟨w.setAwake true, List.mem_map_of_mem hw, rfl⟩
  | roused | dozed =>
    refine Or.inl ⟨rfl, _, List.mem_map_of_mem hw, ?_⟩
    split <;> rfl
  | @ended _ u result waits turn decided =>
    by_cases hcaller : u.caller = w.caller
    · obtain rfl := ho.eq_of_caller waits hw hcaller
      exact Or.inr ⟨result, rfl, rfl, Or.inl decided⟩
    · refine Or.inl ⟨if_neg hcaller, w, ?_, rfl⟩
      rw [waiters_conclude]
      exact mem_without hw (Ne.symm hcaller)
  | @expired u limit waits undecided timed =>
    by_cases hcaller : u.caller = w.caller
    · obtain rfl := ho.eq_of_caller waits hw hcaller
      exact Or.inr ⟨_, rfl, rfl, Or.inr ⟨undecided, limit, rfl, rfl⟩⟩
    · exact Or.inl ⟨if_neg hcaller, w, mem_without hw (Ne.symm hcaller), rfl⟩

end

/-! ## Runs -/

/-- A lock that is free and that nobody waits for. -/
def opened (timeout : Option Duration) : Room κ := { lock := { timeout } }

/-- **Any sequence of deeds.**  Each of them begins in the state in which the one before it ended. -/
inductive Follows (room : Room κ) : List (Deed κ) → Room κ → Prop
  | start : Follows room [] room
  | step {deeds : List (Deed κ)} {now : Room κ} (before : Follows room deeds now) (step : Step κ)
      (allowed : now.Allows step) :
      Follows room (deeds ++ [⟨step, (now.perform step).1⟩]) (now.perform step).2

theorem Follows.orderly {room after : Room κ} {deeds : List (Deed κ)}
    (run : room.Follows deeds after) (ho : room.Orderly) : after.Orderly := by
  induction run with
  | start => exact ho
  | @step deeds now before step allowed ih => exact ih.does (now.perform_does step) allowed

/-- The epoch counts how often those who wait were called off. -/
theorem Follows.epoch_eq {room after : Room κ} {deeds : List (Deed κ)}
    (run : room.Follows deeds after) :
    after.lock.epoch = room.lock.epoch + UInt64.ofNat (Deed.calls deeds) := by
  induction run with
  | start => exact (UInt64.add_zero _).symm
  | @step deeds now before step allowed ih =>
    rw [(now.perform_takes step).epoch_eq, ih, Deed.calls_concat, UInt64.ofNat_add,
      UInt64.add_assoc]

/-- **Who waits after a run** has blocked in it, and its epoch is that of the lock less the calls
since; or it waited before the run. -/
theorem Follows.waiter_cases {room after : Room κ} {deeds : List (Deed κ)}
    (run : room.Follows deeds after) {v : Waiter κ} (hv : v ∈ after.waiters) :
    (Deed.Blocked v.caller deeds ∧
        after.lock.epoch = v.epoch + UInt64.ofNat (Deed.callsSince v.caller deeds)) ∨
      (¬Deed.Blocked v.caller deeds ∧
        ∃ w ∈ room.waiters, v.setAwake false = w.setAwake false) := by
  induction run generalizing v with
  | start => exact Or.inr ⟨fun ⟨_, h, _⟩ => by (cases h), v, hv, rfl⟩
  | @step deeds now before step allowed ih =>
    have ht := now.perform_takes step
    rcases ht.waiter_cases hv with ⟨hstep, hevent, hepoch⟩ | ⟨w, hw, hsame⟩
    · have hblocks : Deed.blocks ⟨step, (now.perform step).1⟩ v.caller = true := by
        rw [hevent]
        exact Deed.blocks_blocked ..
      refine Or.inl ⟨Deed.blocked_concat.2 (Or.inr hblocks), ?_⟩
      rw [ht.epoch_eq, Deed.callsSince_concat_of_blocks hblocks, hepoch, hstep]
      rfl
    · obtain ⟨hcaller, -, hepoch⟩ := eq_of_setAwake hsame
      have hblocks := ht.not_blocks allowed hw
      rw [hcaller, Deed.blocked_concat, hblocks, Deed.callsSince_concat hblocks]
      rcases ih hw with ⟨hin, hdated⟩ | ⟨hnone, u, hu, hsame'⟩
      · refine Or.inl ⟨Or.inl hin, ?_⟩
        rw [ht.epoch_eq, hdated, hepoch, UInt64.ofNat_add, UInt64.add_assoc]
      · exact Or.inr ⟨by simpa using hnone, u, hu, hsame.trans hsame'⟩

/-- Who returned does not wait, unless it has blocked again. -/
theorem Follows.returned?_eq_none {room after : Room κ} {deeds : List (Deed κ)}
    (run : room.Follows deeds after) (ho : room.Orderly) {v : Waiter κ} (hv : v ∈ after.waiters)
    (hnot : ¬Deed.Blocked v.caller deeds) : Deed.returned? v.caller deeds = none := by
  induction run generalizing v with
  | start => rfl
  | @step deeds now before step allowed ih =>
    have ht := now.perform_takes step
    rw [Deed.blocked_concat, not_or] at hnot
    rcases ht.waiter_cases hv with ⟨-, hevent, -⟩ | ⟨w, hw, hsame⟩
    · rw [hevent] at hnot
      exact absurd (Deed.blocks_blocked ..) hnot.2
    · obtain ⟨hcaller, -, -⟩ := eq_of_setAwake hsame
      rw [hcaller] at hnot ⊢
      rw [Deed.returned?_concat, ih hw hnot.1, Option.none_or]
      rcases ht.stays_or_ends (before.orderly ho) hw with ⟨hnone, -⟩ | ⟨result, -, hafter, -⟩
      · exact hnone
      · rw [hafter, waiters_conclude, without, List.mem_filter] at hv
        exact absurd hcaller (of_decide_eq_true hv.2)

end Room
end Folio.Lock
