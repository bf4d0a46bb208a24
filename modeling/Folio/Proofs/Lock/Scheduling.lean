import Folio.Proofs.Lock.Waking

/-! # The order of turns makes no difference

Those who wait at a lock are left to themselves: notices are delivered, sleepers wake, with a notice
or without one, and whoever is awake takes his turn, in any order (`Schedule`).  Where no more than
one of them is a writer the order makes no difference (**`Follows.schedules_agree`**).

That is so because the end can be told beforehand.  Those who have been called off will return
interrupted, so what counts is the lock without them (`cleared`): if it can be had by a writer that
waits, the writer will have it, and no reader will; otherwise the readers will have it together or
not at all.  A reader that looks too early goes back to sleep, and whoever it stood back for wakes
it again.  What is told in this way (`fate`, `outcome`) is the same after each turn as before it.
-/
namespace Folio.Lock

/-- The step is a matter of those who wait alone. -/
def Step.isTurn {κ : Type} : Step κ → Bool
  | deliver | rouse _ | resume _ => true
  | _ => false

namespace Room

variable {κ : Type}

/-! ## What will become of those who wait -/

/-- The lock without those who have been called off. -/
def cleared (room : Room κ) : Lock :=
  { room.lock with
    waitingWriters :=
      room.waiters.countP fun w => w.mode = .write ∧ w.epoch = room.lock.epoch }

/-- How a waiter will return, or `none` if it will wait on. -/
def fate (room : Room κ) (w : Waiter κ) : Option (Except Error Unit) := verdict room.cleared w

/-- The room as those who wait will leave it. -/
def outcome (room : Room κ) : Room κ where
  lock :=
    { room.lock with
      readers := room.lock.readers +
        room.waiters.countP fun w => w.mode = .read ∧ room.fate w = some (.ok ())
      writer := room.lock.writer ||
        0 < room.waiters.countP fun w => w.mode = .write ∧ room.fate w = some (.ok ())
      waitingWriters := room.waiters.countP fun w => w.mode = .write ∧ room.fate w = none }
  waiters := (room.waiters.filter fun w => room.fate w = none).map (·.setAwake false)

/-- The room with everybody asleep and nothing to wake them. -/
def atRest (room : Room κ) : Room κ :=
  { room with waiters := room.waiters.map (·.setAwake false), notices := 0 }

/-- Nobody is awake and nobody will be woken. -/
structure Quiet (room : Room κ) : Prop where
  notices : room.notices = 0
  asleep : ∀ w ∈ room.waiters, w.awake = false

/-- Nobody can get on, whether asleep or awake. -/
def Settled (room : Room κ) : Prop := ∀ w ∈ room.waiters, verdict room.lock w = none

instance (room : Room κ) : Decidable room.Settled :=
  inferInstanceAs (Decidable (∀ w ∈ room.waiters, verdict room.lock w = none))

/-- It makes no difference to the end who is awake. -/
theorem cleared_atRest (room : Room κ) : room.atRest.cleared = room.cleared := by
  simp only [cleared, atRest, List.countP_map]
  rfl

theorem fate_atRest (room : Room κ) (w : Waiter κ) : room.atRest.fate w = room.fate w := by
  rw [fate, cleared_atRest, fate]

theorem outcome_atRest (room : Room κ) : room.atRest.outcome = room.outcome := by
  have hfate : room.atRest.fate = room.fate := funext (fate_atRest room)
  simp only [outcome, hfate]
  simp only [atRest, List.countP_map, List.filter_map, List.map_map]
  rfl

section
variable {room after : Room κ}

/-- Rooms that are the same at rest have the same lock, and the same acquires wait for it. -/
theorem eq_of_atRest (h : after.atRest = room.atRest) :
    after.lock = room.lock ∧
      after.waiters.map (·.setAwake false) = room.waiters.map (·.setAwake false) := by
  obtain ⟨hlock, hwaiters, -⟩ := Room.mk.inj h
  exact ⟨hlock, hwaiters⟩

theorem fate_congr (h : after.atRest = room.atRest) : after.fate = room.fate := by
  funext w
  rw [← fate_atRest, h, fate_atRest]

theorem outcome_congr (h : after.atRest = room.atRest) : after.outcome = room.outcome := by
  rw [← outcome_atRest, h, outcome_atRest]

end

/-! ## A turn fulfils a fate -/

section
variable [DecidableEq κ] {room : Room κ} {w v : Waiter κ} {result : Except Error Unit}

theorem Orderly.countP_eq (ho : room.Orderly) (hw : w ∈ room.waiters) (p : Waiter κ → Bool) :
    room.waiters.countP p = (room.without w.caller).countP p + if p w then 1 else 0 := by
  rw [(ho.waiters_perm hw).countP_eq, List.countP_cons]

/-- Who is not looked for is not missed. -/
theorem Orderly.filter_without (ho : room.Orderly) (hw : w ∈ room.waiters) {p : Waiter κ → Bool}
    (hp : p w = false) : (room.without w.caller).filter p = room.waiters.filter p := by
  rw [without, List.filter_filter]
  refine List.filter_congr fun v hv => ?_
  by_cases hcaller : v.caller = w.caller
  · simp [ho.eq_of_caller hv hw hcaller, hp]
  · simp [hcaller]

/-- Who has been called off does not count already. -/
theorem cleared_conclude_error (ho : room.Orderly) (hw : w ∈ room.waiters)
    (hoff : w.epoch ≠ room.lock.epoch) (e : Error) :
    (room.conclude w (.error e)).2.cleared = room.cleared := by
  have hcount : (room.waiters.countP fun w => w.mode = .write ∧ w.epoch = room.lock.epoch) =
      (room.without w.caller).countP fun w => w.mode = .write ∧ w.epoch = room.lock.epoch := by
    rw [ho.countP_eq hw, if_neg (by simp [hoff]), Nat.add_zero]
  rw [cleared, cleared, hcount, waiters_conclude, epoch_conclude]
  cases hmode : w.mode <;> simp [conclude, dismiss, hmode]

omit [DecidableEq κ] in
/-- A reader that can have the lock is not held back by any writer that waits. -/
theorem Orderly.all_read (ho : room.Orderly) (hfree : room.lock.admits .read = true)
    (hv : v ∈ room.waiters) : v.mode = .read := by
  have hnone := (admits_read hfree).2
  rw [ho.counted, List.countP_eq_zero] at hnone
  have hnot := hnone v hv
  cases hmode : v.mode with
  | read => rfl
  | write => exact absurd (decide_eq_true hmode) hnot

/-- Beside the only writer there are readers. -/
theorem Orderly.read_of_ne (ho : room.Orderly) (hone : room.waiters.countP (·.mode = .write) ≤ 1)
    (hw : w ∈ room.waiters) (hmode : w.mode = .write) (hv : v ∈ room.without w.caller) :
    v.mode = .read := by
  rw [ho.countP_eq hw, if_pos (decide_eq_true hmode)] at hone
  cases hv' : v.mode with
  | read => rfl
  | write =>
    have hpos : 0 < (room.without w.caller).countP (·.mode = .write) :=
      List.countP_pos_iff.2 ⟨v, hv, decide_eq_true hv'⟩
    omega

omit [DecidableEq κ] in
/-- Without those who have been called off, whoever can have the lock still can. -/
theorem Orderly.admits_cleared (ho : room.Orderly) {mode : Mode}
    (hfree : room.lock.admits mode = true) : room.cleared.admits mode = true := by
  cases mode with
  | write => exact hfree
  | read =>
    have hnone : room.cleared.waitingWriters = 0 :=
      List.countP_eq_zero.2 fun v hv => by simp [ho.all_read hfree hv]
    have hwriter : room.cleared.writer = false := (admits_read hfree).1
    simp [Lock.admits, hnone, hwriter]

omit [DecidableEq κ] in
/-- A verdict is fulfilment. -/
theorem Orderly.fate_eq (ho : room.Orderly) (h : verdict room.lock w = some result) :
    room.fate w = some result := by
  rcases verdict_cases h with ⟨hoff, rfl⟩ | ⟨hepoch, hfree, rfl⟩
  · exact verdict_called_off hoff
  · refine (verdict_of_epoch ?_).trans (if_pos (ho.admits_cleared hfree))
    exact hepoch

/-- A grant leaves the others what they had to expect: readers have the lock together, and beside a
writer nobody has it. -/
theorem Orderly.admits_conclude (ho : room.Orderly)
    (hone : room.waiters.countP (·.mode = .write) ≤ 1) (hw : w ∈ room.waiters)
    (hepoch : w.epoch = room.lock.epoch) (hfree : room.lock.admits w.mode = true)
    (hv : v ∈ room.without w.caller) :
    (room.conclude w (.ok ())).2.cleared.admits v.mode = room.cleared.admits v.mode := by
  cases hmode : w.mode with
  | read =>
    rw [hmode] at hfree
    have hvmem := (List.mem_filter.1 hv).1
    have hnone : (room.conclude w (.ok ())).2.cleared.waitingWriters = 0 := by
      refine List.countP_eq_zero.2 fun u hu => ?_
      rw [waiters_conclude] at hu
      simp [ho.all_read hfree (List.mem_filter.1 hu).1]
    have hwriter : (room.conclude w (.ok ())).2.cleared.writer = false := by
      simpa [cleared, conclude, dismiss, Lock.grant, hmode] using (admits_read hfree).1
    rw [ho.all_read hfree hvmem, ho.admits_cleared hfree]
    simp [Lock.admits, hnone, hwriter]
  | write =>
    have hwriter : (room.conclude w (.ok ())).2.cleared.writer = true := by
      simp [cleared, conclude, Lock.grant, hmode]
    have hpos : 0 < room.cleared.waitingWriters :=
      List.countP_pos_iff.2 ⟨w, hw, decide_eq_true ⟨hmode, hepoch⟩⟩
    rw [ho.read_of_ne hone hw hmode hv, admits_read_eq_false_iff.2 (Or.inl hwriter),
      admits_read_eq_false_iff.2 (Or.inr hpos)]

/-- **Whoever returns leaves the others their fate.** -/
theorem Orderly.fate_conclude (ho : room.Orderly)
    (hone : room.waiters.countP (·.mode = .write) ≤ 1) (hw : w ∈ room.waiters)
    (h : verdict room.lock w = some result) (hv : v ∈ room.without w.caller) :
    (room.conclude w result).2.fate v = room.fate v := by
  rcases verdict_cases h with ⟨hoff, rfl⟩ | ⟨hepoch, hfree, rfl⟩
  · rw [fate, cleared_conclude_error ho hw hoff, fate]
  · have hsame : (room.conclude w (.ok ())).2.cleared.epoch = room.cleared.epoch :=
      epoch_conclude ..
    rw [fate, fate, verdict, verdict, hsame, ho.admits_conclude hone hw hepoch hfree hv]

/-- What the end of an acquire makes of the holds. -/
theorem lock_conclude (room : Room κ) (w : Waiter κ) (result : Except Error Unit) :
    (room.conclude w result).2.lock =
      { room.lock with
        readers := room.lock.readers + if w.mode = .read ∧ result = .ok () then 1 else 0
        writer := room.lock.writer || decide (w.mode = .write ∧ result = .ok ())
        waitingWriters := (dismiss room.lock w.mode).waitingWriters } := by
  cases result <;> cases hmode : w.mode <;> simp [conclude, dismiss, Lock.grant, hmode]

/-- **Whoever returns leaves the room its outcome.** -/
theorem Orderly.outcome_conclude (ho : room.Orderly)
    (hone : room.waiters.countP (·.mode = .write) ≤ 1) (hw : w ∈ room.waiters)
    (h : verdict room.lock w = some result) :
    (room.conclude w result).2.outcome = room.outcome := by
  have hfate := ho.fate_eq h
  have hothers (v : Waiter κ) (hv : v ∈ room.without w.caller) :=
    ho.fate_conclude hone hw h hv
  have hcount (mode : Mode) (r : Option (Except Error Unit)) :
      ((room.without w.caller).countP fun v =>
        v.mode = mode ∧ (room.conclude w result).2.fate v = r) =
      (room.without w.caller).countP fun v => v.mode = mode ∧ room.fate v = r :=
    List.countP_congr fun v hv => by rw [hothers v hv]
  have hfilter : ((room.without w.caller).filter fun v =>
        (room.conclude w result).2.fate v = none) =
      room.waiters.filter fun v => room.fate v = none := by
    rw [List.filter_congr fun v hv => by rw [hothers v hv]]
    exact ho.filter_without hw (by simp [hfate])
  -- what `w` takes with it is what it was to have
  have hreaders := ho.countP_eq hw fun v => v.mode = .read ∧ room.fate v = some (.ok ())
  have hwaiting := ho.countP_eq hw fun v => v.mode = .write ∧ room.fate v = none
  have hwriter := ho.countP_eq hw fun v => v.mode = .write ∧ room.fate v = some (.ok ())
  simp only [hfate, Option.some.injEq, reduceCtorEq, and_false, decide_false, Bool.false_eq_true,
    if_false, Nat.add_zero, decide_eq_true_eq] at hreaders hwaiting hwriter
  rw [outcome, outcome, waiters_conclude, hcount, hcount, hcount, hfilter, hreaders, hwaiting,
    hwriter, lock_conclude]
  by_cases hgranted : w.mode = .write ∧ result = .ok ()
  · simp [hgranted]
  · simp [hgranted, Nat.add_assoc, Nat.add_comm]

end

/-! ## A turn -/

section
variable [DecidableEq κ] {room after : Room κ} {step : Step κ} {event : Option (Event κ)}
  {w : Waiter κ} {result : Except Error Unit}

theorem atRest_lull (room : Room κ) (caller : κ) : (room.lull caller).atRest = room.atRest := by
  simp only [lull, atRest]
  rw [map_setAwake_of _ fun w => by split <;> rfl]

/-- **What a turn does.**  Somebody wakes or goes back to sleep, or an acquire returns by its
verdict. -/
theorem Takes.turn_cases (ht : room.Takes step event after) (turn : step.isTurn = true) :
    (event = none ∧ after.atRest = room.atRest) ∨
      ∃ w ∈ room.waiters, ∃ result, verdict room.lock w = some result ∧
        event = some (.ended w.caller w.mode result) ∧ after = (room.conclude w result).2 := by
  cases ht with
  | attempted | arrived | refused | blocked | released | notHeld | interrupted | expired =>
    cases turn
  | idle => exact Or.inl ⟨rfl, rfl⟩
  | delivered =>
    refine Or.inl ⟨rfl, ?_⟩
    unfold deliver
    split
    · rfl
    · simp only [atRest, map_setAwake_of (·.setAwake true) fun _ => rfl]
  | roused =>
    refine Or.inl ⟨rfl, ?_⟩
    simp only [atRest, rouse]
    rw [map_setAwake_of _ fun w => by split <;> rfl]
  | dozed => exact Or.inl ⟨rfl, room.atRest_lull _⟩
  | ended waits _ decided => exact Or.inr ⟨_, waits, _, decided, rfl, rfl⟩

/-- A turn brings nobody. -/
theorem Takes.countP_le (ht : room.Takes step event after) (turn : step.isTurn = true)
    {p : Waiter κ → Bool} (hp : ∀ w, p (w.setAwake false) = p w) :
    after.waiters.countP p ≤ room.waiters.countP p := by
  rcases ht.turn_cases turn with ⟨-, hrest⟩ | ⟨w, -, result, -, -, rfl⟩
  · have hcount := congrArg (List.countP p) (eq_of_atRest hrest).2
    simp only [List.countP_map, Function.comp_def, hp] at hcount
    exact Nat.le_of_eq hcount
  · rw [waiters_conclude]
    exact List.filter_sublist.countP_le

/-- **A turn leaves the room its outcome.** -/
theorem Takes.outcome_eq (ht : room.Takes step event after) (turn : step.isTurn = true)
    (ho : room.Orderly) (hone : room.waiters.countP (·.mode = .write) ≤ 1) :
    after.outcome = room.outcome := by
  rcases ht.turn_cases turn with ⟨-, hrest⟩ | ⟨w, hw, result, hverdict, -, rfl⟩
  · exact outcome_congr hrest
  · exact ho.outcome_conclude hone hw hverdict

/-- **Nobody's fate changes by a turn**, and who returns has met his. -/
theorem Takes.fate_met (ht : room.Takes step event after) (turn : step.isTurn = true)
    (ho : room.Orderly) (hone : room.waiters.countP (·.mode = .write) ≤ 1)
    (hw : w ∈ room.waiters) :
    ((⟨step, event⟩ : Deed κ).result? w.caller = none ∧
        ∃ v ∈ after.waiters, v.setAwake false = w.setAwake false ∧
          after.fate v = room.fate w) ∨
      ∃ result, (⟨step, event⟩ : Deed κ).result? w.caller = some result ∧
        room.fate w = some result := by
  rcases ht.stays_or_ends ho hw with ⟨hnone, v, hv, hsame⟩ | ⟨result, rfl, -, hresult⟩
  · refine Or.inl ⟨hnone, v, hv, hsame, ?_⟩
    have hfate : room.fate (v.setAwake false) = room.fate (w.setAwake false) := by rw [hsame]
    change room.fate v = room.fate w at hfate
    rw [← hfate]
    rcases ht.turn_cases turn with ⟨-, hrest⟩ | ⟨u, hu, r, hverdict, -, rfl⟩
    · rw [fate_congr hrest]
    · rw [waiters_conclude] at hv
      exact ho.fate_conclude hone hu hverdict hv
  · rcases hresult with hverdict | ⟨-, limit, rfl, -⟩
    · exact Or.inr ⟨result, if_pos rfl, ho.fate_eq hverdict⟩
    · cases turn

end

/-! ## A schedule -/

section
variable [DecidableEq κ]

/-- **Turns in any order.** -/
inductive Schedule (room : Room κ) : List (Deed κ) → Room κ → Prop
  | start : Schedule room [] room
  | step {deeds : List (Deed κ)} {now : Room κ} (before : Schedule room deeds now) (step : Step κ)
      (turn : step.isTurn = true) :
      Schedule room (deeds ++ [⟨step, (now.perform step).1⟩]) (now.perform step).2

variable {room now after : Room κ} {deeds more : List (Deed κ)} {w : Waiter κ}

omit [DecidableEq κ] in
/-- A turn needs nobody's leave. -/
theorem allows_turn (room : Room κ) {step : Step κ} (turn : step.isTurn = true) :
    room.Allows step := by
  cases step with
  | arrive => cases turn
  | _ => trivial

theorem Schedule.follows (run : room.Schedule deeds after) : room.Follows deeds after := by
  induction run with
  | start => exact .start
  | step before step turn ih => exact ih.step step (allows_turn _ turn)

theorem Schedule.append (run : room.Schedule deeds now) (later : now.Schedule more after) :
    room.Schedule (deeds ++ more) after := by
  induction later with
  | start => rwa [List.append_nil]
  | step before step turn ih =>
    rw [← List.append_assoc]
    exact ih.step step turn

/-- Turns bring nobody. -/
theorem Schedule.countP_le (run : room.Schedule deeds after) {p : Waiter κ → Bool}
    (hp : ∀ w, p (w.setAwake false) = p w) :
    after.waiters.countP p ≤ room.waiters.countP p := by
  induction run with
  | start => exact Nat.le_refl _
  | @step deeds now before step turn ih =>
    exact Nat.le_trans ((now.perform_takes step).countP_le turn hp) ih

theorem Schedule.writers_le (run : room.Schedule deeds after)
    (hone : room.waiters.countP (·.mode = .write) ≤ 1) :
    after.waiters.countP (·.mode = .write) ≤ 1 :=
  Nat.le_trans (run.countP_le fun _ => rfl) hone

/-- **Turns leave the room its outcome.** -/
theorem Schedule.outcome_eq (run : room.Schedule deeds after) (ho : room.Orderly)
    (hone : room.waiters.countP (·.mode = .write) ≤ 1) : after.outcome = room.outcome := by
  induction run with
  | start => rfl
  | @step deeds now before step turn ih =>
    have hkept := (now.perform_takes step).outcome_eq turn (before.follows.orderly ho)
      (before.writers_le hone)
    exact hkept.trans ih

/-- **Whoever waits meets his fate or waits on for it.** -/
theorem Schedule.fate_met (run : room.Schedule deeds after) (ho : room.Orderly)
    (hone : room.waiters.countP (·.mode = .write) ≤ 1) (hw : w ∈ room.waiters) :
    (Deed.returned? w.caller deeds = none ∧
        ∃ v ∈ after.waiters, v.setAwake false = w.setAwake false ∧
          after.fate v = room.fate w) ∨
      ∃ result, Deed.returned? w.caller deeds = some result ∧ room.fate w = some result := by
  induction run with
  | start => exact Or.inl ⟨rfl, w, hw, rfl, rfl⟩
  | @step deeds now before step turn ih =>
    rw [Deed.returned?_concat]
    rcases ih with ⟨hnone, v, hv, hsame, hfate⟩ | ⟨result, hreturned, hfate⟩
    · obtain ⟨hcaller, -, -⟩ := eq_of_setAwake hsame
      rw [hnone, Option.none_or, ← hcaller, ← hfate]
      rcases (now.perform_takes step).fate_met turn (before.follows.orderly ho)
        (before.writers_le hone) hv with ⟨hnot, u, hu, hsame', hfate'⟩ | h
      · exact Or.inl ⟨hnot, u, hu, hsame'.trans hsame, hfate'⟩
      · exact Or.inr h
    · exact Or.inr ⟨result, by rw [hreturned, Option.some_or], hfate⟩

/-- How far those who wait are from being left with nothing to do.  A notice is used up by waking
everybody, and a waiter that returns may post one. -/
def effort (room : Room κ) : Nat × Nat :=
  (2 * room.waiters.length + room.notices, room.waiters.countP (·.awake))

/-- There is less left to do in one room than in another. -/
def Nearer (after room : Room κ) : Prop :=
  Prod.Lex (· < ·) (· < ·) after.effort room.effort

omit [DecidableEq κ] in
theorem nearer_deliver (h : room.notices ≠ 0) : room.deliver.Nearer room := by
  refine Prod.Lex.left _ _ ?_
  simp only [deliver, if_neg h, List.length_map]
  omega

theorem Orderly.nearer_lull (ho : room.Orderly) (hw : w ∈ room.waiters) (hawake : w.awake = true) :
    (room.lull w.caller).Nearer room := by
  have hasleep : (room.lull w.caller).waiters.countP (·.awake) =
      (room.without w.caller).countP (·.awake) := by
    rw [lull, List.countP_map, without, List.countP_filter]
    refine List.countP_congr fun v _ => ?_
    by_cases hcaller : v.caller = w.caller <;> simp [hcaller, Waiter.setAwake]
  have hless := ho.countP_eq hw (·.awake)
  rw [if_pos hawake] at hless
  refine Prod.lex_def.2 (Or.inr ⟨?_, ?_⟩)
  · simp only [effort, lull, List.length_map]
  · simp only [effort]
    omega

theorem Orderly.nearer_conclude (ho : room.Orderly) (hw : w ∈ room.waiters)
    (result : Except Error Unit) : (room.conclude w result).2.Nearer room := by
  have hlength := (ho.waiters_perm hw).length_eq
  have hnotices : (room.conclude w result).2.notices ≤ room.notices + 1 := by
    cases result <;> simp [conclude]
  rw [List.length_cons] at hlength
  refine Prod.Lex.left _ _ ?_
  rw [waiters_conclude]
  omega

/-- Somebody who is awake does something by his turn. -/
theorem Orderly.nearer_resume (ho : room.Orderly) (hw : w ∈ room.waiters)
    (hawake : w.awake = true) : (room.perform (.resume w.caller)).2.Nearer room := by
  rw [perform_resume (ho.find?_eq hw) hawake]
  cases verdict room.lock w with
  | none => exact ho.nearer_lull hw hawake
  | some result => exact ho.nearer_conclude hw result

/-- A room that is not quiet is left with less to do by a notice or by somebody's turn. -/
theorem Orderly.exists_nearer (ho : room.Orderly) (hbusy : ¬room.Quiet) :
    ∃ step : Step κ, step.isTurn = true ∧ (room.perform step).2.Nearer room := by
  by_cases hnotices : room.notices = 0
  · have hawake : ∃ w ∈ room.waiters, w.awake = true := by
      by_contra hnone
      exact hbusy ⟨hnotices, by simpa using hnone⟩
    obtain ⟨w, hw, hawake⟩ := hawake
    exact ⟨.resume w.caller, rfl, ho.nearer_resume hw hawake⟩
  · exact ⟨.deliver, rfl, nearer_deliver hnotices⟩

/-- **Turns can always be taken until there is nothing left to do.** -/
theorem exists_quiet (room : Room κ) (ho : room.Orderly) :
    ∃ deeds after, room.Schedule deeds after ∧ after.Quiet := by
  by_cases hquiet : room.Quiet
  · exact ⟨[], room, .start, hquiet⟩
  · obtain ⟨step, turn, hnearer⟩ := ho.exists_nearer hquiet
    have honward := ho.does (room.perform_does step) (allows_turn room turn)
    obtain ⟨deeds, after, run, hafter⟩ := exists_quiet _ honward
    exact ⟨_, after, (Schedule.start.step step turn).append run, hafter⟩
termination_by room.effort
decreasing_by exact hnearer

omit [DecidableEq κ] in
/-- Where nobody can get on, everybody has met his fate. -/
theorem Orderly.fate_settled (ho : room.Orderly) (hs : room.Settled) (hw : w ∈ room.waiters) :
    room.fate w = none := by
  have hcount : room.cleared.waitingWriters = room.lock.waitingWriters := by
    rw [ho.counted]
    refine List.countP_congr fun v hv => ?_
    simp [(verdict_eq_none_iff.1 (hs v hv)).1]
  have hcleared : room.cleared = room.lock :=
    congrArg (fun n => { room.lock with waitingWriters := n }) hcount
  rw [fate, hcleared]
  exact hs w hw

omit [DecidableEq κ] in
/-- Where nobody can get on, the outcome is there. -/
theorem Orderly.outcome_settled (ho : room.Orderly) (hs : room.Settled) :
    room.outcome = room.atRest := by
  have hfate (w : Waiter κ) (hw : w ∈ room.waiters) : room.fate w = none := ho.fate_settled hs hw
  have hgranted (mode : Mode) : (room.waiters.countP fun w =>
      w.mode = mode ∧ room.fate w = some (.ok ())) = 0 :=
    List.countP_eq_zero.2 fun w hw => by simp [hfate w hw]
  have hwaiting : (room.waiters.countP fun w => w.mode = .write ∧ room.fate w = none) =
      room.lock.waitingWriters := by
    rw [ho.counted]
    exact List.countP_congr fun w hw => by simp [hfate w hw]
  have hall : (room.waiters.filter fun w => room.fate w = none) = room.waiters :=
    List.filter_eq_self.2 fun w hw => decide_eq_true (hfate w hw)
  simp only [outcome, hgranted, hwaiting, hall, atRest, Nat.add_zero, Nat.lt_irrefl, decide_false,
    Bool.or_false]

omit [DecidableEq κ] in
/-- Where nobody is awake and nobody will be woken, nobody can get on. -/
theorem Alert.settled (ha : room.Alert) (hq : room.Quiet) : room.Settled := by
  intro w hw
  rcases ha w hw with h | h | h
  · exact absurd ((hq.asleep w hw).symm.trans h) Bool.false_ne_true
  · rw [hq.notices] at h
    exact absurd h (Nat.lt_irrefl 0)
  · exact h

/-- **A settled room is the outcome of the room that it began with**, and everybody has met his
fate. -/
theorem Schedule.settled (run : room.Schedule deeds after) (ho : room.Orderly)
    (hone : room.waiters.countP (·.mode = .write) ≤ 1) (hs : after.Settled) :
    after.atRest = room.outcome ∧
      ∀ w ∈ room.waiters, Deed.returned? w.caller deeds = room.fate w := by
  have ho' := run.follows.orderly ho
  refine ⟨?_, fun w hw => ?_⟩
  · rw [← ho'.outcome_settled hs, run.outcome_eq ho hone]
  · rcases run.fate_met ho hone hw with ⟨hnone, v, hv, -, hfate⟩ | ⟨result, hreturned, hfate⟩
    · rw [hnone, ← hfate, ho'.fate_settled hs hv]
    · rw [hreturned, hfate]

/-- **The order of turns makes no difference.**  Let no more than one of those who wait be a writer;
some of them may have been called off.  However they have begun, their turns can be taken until
everybody is asleep with nothing to wake them, and then nobody can get on.  Wherever nobody can get
on, the room is the one that could be told beforehand, and each of those who waited was granted the
lock, was interrupted or waits on as could be told.  So two orders leave the same lock and give
everybody the same result. -/
theorem Follows.schedules_agree {timeout : Option Duration} {earlier : List (Deed κ)}
    (before : (opened timeout).Follows earlier room)
    (hone : room.waiters.countP (·.mode = .write) ≤ 1) :
    (∀ deeds now, room.Schedule deeds now →
      ∃ more after, now.Schedule more after ∧ after.Quiet) ∧
    (∀ deeds after, room.Schedule deeds after → after.Quiet → after.Settled) ∧
    (∀ deeds after, room.Schedule deeds after → after.Settled →
      after.atRest = room.outcome ∧
        ∀ w ∈ room.waiters, Deed.returned? w.caller deeds = room.fate w) ∧
    ∀ deeds after deeds' after', room.Schedule deeds after → room.Schedule deeds' after' →
      after.Settled → after'.Settled →
        after.lock = after'.lock ∧
          ∀ w ∈ room.waiters, Deed.returned? w.caller deeds = Deed.returned? w.caller deeds' := by
  have ho := before.orderly (orderly_new timeout)
  have halert := before.alert (orderly_new timeout) (alert_opened timeout)
  refine ⟨fun deeds now run => ?_, fun deeds after run hquiet => ?_,
    fun deeds after run hs => run.settled ho hone hs,
    fun deeds after deeds' after' run run' hs hs' => ?_⟩
  · exact exists_quiet now (run.follows.orderly ho)
  · exact (run.follows.alert ho halert).settled hquiet
  · obtain ⟨hrest, hmet⟩ := run.settled ho hone hs
    obtain ⟨hrest', hmet'⟩ := run'.settled ho hone hs'
    obtain ⟨hlock, -⟩ := eq_of_atRest (hrest.trans hrest'.symm)
    exact ⟨hlock, fun w hw => (hmet w hw).trans (hmet' w hw).symm⟩

end

/-- A writer gives the lock back.  A reader that had been called off, a writer and another reader
wait for it, and it makes no difference that the second reader looks at the lock first. -/
theorem Follows.schedules_agree_when_released :
    ∃ (earlier deeds deeds' : List (Deed Nat)) (room after after' : Room Nat),
      (opened none).Follows earlier room ∧ room.waiters.countP (·.mode = .write) ≤ 1 ∧
      room.Schedule deeds after ∧ room.Schedule deeds' after' ∧ after.Settled ∧ after'.Settled ∧
      deeds.map (·.step) = [.deliver, .resume 2, .resume 1, .resume 3] ∧
      deeds'.map (·.step) = [.rouse 3, .resume 3, .deliver, .resume 1, .resume 2] ∧
      after.lock = after'.lock ∧ after.lock.writer = true ∧
      Deed.returned? 1 deeds' = some (.error (.interrupted .read)) ∧
      Deed.returned? 2 deeds' = some (.ok ()) ∧ Deed.returned? 3 deeds' = none := by
  let room : Room Nat :=
    { lock := { waitingWriters := 1, epoch := 1 }
      waiters := [{ caller := 1, mode := .read, epoch := 0 },
        { caller := 2, mode := .write, epoch := 1 }, { caller := 3, mode := .read, epoch := 1 }]
      notices := 2 }
  have free : (opened none : Room Nat).Follows [] (opened none) := .start
  have called := ((free.step (.arrive 0 .write) (by decide)).step (.arrive 1 .read)
    (by decide)).step .interrupt (by decide)
  have before : (opened none).Follows _ room := ((called.step (.arrive 2 .write)
    (by decide)).step (.arrive 3 .read) (by decide)).step (.release .write) (by decide)
  have waiting : room.Schedule [] room := .start
  have run := (((waiting.step .deliver rfl).step (.resume 2) rfl).step (.resume 1) rfl).step
    (.resume 3) rfl
  have run' := ((((waiting.step (.rouse 3) rfl).step (.resume 3) rfl).step .deliver rfl).step
    (.resume 1) rfl).step (.resume 2) rfl
  obtain ⟨-, -, -, hagree⟩ := before.schedules_agree (by decide)
  obtain ⟨hlock, hsame⟩ := hagree _ _ _ _ run run' (by decide) (by decide)
  refine ⟨_, _, _, room, _, _, before, by decide, run, run', by decide, by decide, rfl, rfl,
    hlock, rfl, ?_, ?_, ?_⟩
  · exact (hsame { caller := 1, mode := .read, epoch := 0 } (by decide)).symm.trans (by decide)
  · exact (hsame { caller := 2, mode := .write, epoch := 1 } (by decide)).symm.trans (by decide)
  · exact (hsame { caller := 3, mode := .read, epoch := 1 } (by decide)).symm.trans (by decide)

end Room
end Folio.Lock
