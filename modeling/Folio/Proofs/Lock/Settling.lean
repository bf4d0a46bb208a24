import Folio.Proofs.Lock.Scheduling

/-! # Settling is one of the orders

`Room.settle` is one way of leaving those who wait to themselves.  Everybody is woken and takes a
turn, those who have been called off first, then writers, then readers, and that again and again
until nobody returns in a round.

A round is a schedule.  If nobody returns in it then every turn found the lock as it was at first,
and nobody can get on (`Orderly.stuck`).  So settling comes to the end that every order comes to where
no more than one writer waits: **`Orderly.atRest_settle`**.
-/
namespace Folio.Lock.Room

variable {κ : Type}

/-! ## The room at rest -/

section
variable {room after : Room κ}

theorem settled_congr (h : after.atRest = room.atRest) (hs : room.Settled) : after.Settled := by
  obtain ⟨hlock, hwaiters⟩ := eq_of_atRest h
  intro v hv
  have hv' : v.setAwake false ∈ room.waiters.map (·.setAwake false) := by
    rw [← hwaiters]
    exact List.mem_map_of_mem hv
  obtain ⟨w, hw, hsame⟩ := List.mem_map.1 hv'
  obtain ⟨-, hmode, hepoch⟩ := eq_of_setAwake hsame
  have hverdict := hs w hw
  unfold verdict at hverdict ⊢
  rwa [hlock, ← hmode, ← hepoch]

/-- The room with everybody awake. -/
def woken (room : Room κ) : Room κ :=
  { room with waiters := room.waiters.map (·.setAwake true), notices := 0 }

theorem atRest_woken (room : Room κ) : room.woken.atRest = room.atRest := by
  simp only [woken, atRest, map_setAwake_of (·.setAwake true) fun _ => rfl]

end

/-! ## Turns one after another -/

section
variable [DecidableEq κ] {room after : Room κ} {w : Waiter κ}

/-- Who is asleep and who is awake does not put a room out of order. -/
theorem Orderly.of_atRest (ho : room.Orderly) (h : after.atRest = room.atRest) :
    after.Orderly := by
  obtain ⟨hlock, hwaiters⟩ := eq_of_atRest h
  have hdoes : room.Does .deliver none after := .stirred ⟨by rw [hlock], hwaiters⟩
  exact ho.does hdoes trivial

/-- Callers take their turns. -/
def resumeEach (room : Room κ) (callers : List κ) : Room κ :=
  callers.foldl (fun room caller => (room.perform (.resume caller)).2) room

theorem resumeEach_cons (room : Room κ) (caller : κ) (callers : List κ) :
    room.resumeEach (caller :: callers) =
      (room.perform (.resume caller)).2.resumeEach callers := rfl

theorem round_eq (room : Room κ) : room.round.2 = room.woken.resumeEach room.woken.turns := by
  have hfold (callers : List κ) (endings : List (Ending κ)) (now : Room κ) :
      (callers.foldl (fun after caller =>
        (after.1 ++ (after.2.resume caller).1.toList, (after.2.resume caller).2))
          (endings, now)).2 = now.resumeEach callers := by
    induction callers generalizing endings now with
    | nil => rfl
    | cons caller callers ih => exact ih ..
  exact hfold ..

theorem exists_schedule (room : Room κ) (callers : List κ) :
    ∃ deeds, room.Schedule deeds (room.resumeEach callers) := by
  induction callers generalizing room with
  | nil => exact ⟨[], .start⟩
  | cons caller callers ih =>
    obtain ⟨deeds, later⟩ := ih (room.perform (.resume caller)).2
    exact ⟨_, (Schedule.start.step (.resume caller) rfl).append later⟩

theorem Schedule.length_le {deeds : List (Deed κ)} (run : room.Schedule deeds after) :
    after.waiters.length ≤ room.waiters.length := by
  simpa using run.countP_le (p := fun _ => true) fun _ => rfl

/-- Who goes back to sleep is the only one concerned. -/
theorem mem_lull_iff {caller : κ} (hne : w.caller ≠ caller) :
    w ∈ (room.lull caller).waiters ↔ w ∈ room.waiters := by
  constructor
  · intro hw
    obtain ⟨v, hv, rfl⟩ := List.mem_map.1 hw
    by_cases hcaller : v.caller = caller
    · rw [if_pos hcaller] at hne
      exact absurd hcaller hne
    · rwa [if_neg hcaller]
  · intro hw
    exact List.mem_map.2 ⟨w, hw, if_neg hne⟩

/-- **Callers among whom nobody returns could not get on**, and leave the room as it is. -/
theorem Orderly.stuck {callers : List κ} (ho : room.Orderly) (honce : callers.Nodup)
    (hawake : ∀ w ∈ room.waiters, w.caller ∈ callers → w.awake = true)
    (hstuck : room.waiters.length ≤ (room.resumeEach callers).waiters.length) :
    (room.resumeEach callers).atRest = room.atRest ∧
      ∀ w ∈ room.waiters, w.caller ∈ callers → verdict room.lock w = none := by
  induction callers generalizing room with
  | nil => exact ⟨rfl, fun w hw h => by cases h⟩
  | cons caller callers ih =>
    obtain ⟨hnot, hothers⟩ := List.nodup_cons.1 honce
    rw [resumeEach_cons] at hstuck ⊢
    by_cases hwaits : ∃ w ∈ room.waiters, w.caller = caller
    · obtain ⟨w, hw, rfl⟩ := hwaits
      rw [perform_resume (ho.find?_eq hw) (hawake w hw List.mem_cons_self)] at hstuck ⊢
      cases hverdict : verdict room.lock w with
      | some result =>
        -- one who returned is missing at the end
        obtain ⟨deeds, run⟩ := exists_schedule (room.conclude w result).2 callers
        have hlength := (ho.waiters_perm hw).length_eq
        have hle := run.length_le
        rw [List.length_cons] at hlength
        rw [waiters_conclude] at hle
        simp only [hverdict] at hstuck
        omega
      | none =>
        have hlull := room.atRest_lull w.caller
        have hsame (v : Waiter κ) (hmem : v.caller ∈ callers) :
            v ∈ (room.lull w.caller).waiters ↔ v ∈ room.waiters :=
          mem_lull_iff fun h => hnot (h ▸ hmem)
        simp only [hverdict] at hstuck ⊢
        obtain ⟨hrest, hnone⟩ := ih (ho.of_atRest hlull) hothers
          (fun v hv hmem => hawake v ((hsame v hmem).1 hv) (List.mem_cons_of_mem _ hmem))
          (by simpa [lull] using hstuck)
        refine ⟨hrest.trans hlull, fun v hv hmem => ?_⟩
        rcases List.mem_cons.1 hmem with hcaller | hmem
        · rwa [ho.eq_of_caller hv hw hcaller]
        · exact hnone v ((hsame v hmem).2 hv) hmem
    · have hidle : room.waiters.find? (·.caller = caller) = none :=
        List.find?_eq_none.2 fun w hw h => hwaits ⟨w, hw, of_decide_eq_true h⟩
      rw [perform_resume_idle (by simp [hidle])] at hstuck ⊢
      obtain ⟨hrest, hnone⟩ := ih ho hothers
        (fun w hw hmem => hawake w hw (List.mem_cons_of_mem _ hmem)) hstuck
      refine ⟨hrest, fun v hv hmem => ?_⟩
      rcases List.mem_cons.1 hmem with hcaller | hmem
      · exact absurd ⟨v, hv, hcaller⟩ hwaits
      · exact hnone v hv hmem

/-! ## Rounds -/

omit [DecidableEq κ] in
/-- In a round everybody has one turn. -/
theorem turns_perm (room : Room κ) : room.turns.Perm (room.waiters.map (·.caller)) := by
  let waiting := room.waiters.filter (·.epoch = room.lock.epoch)
  have hrest : (room.waiters.filter fun w => !decide (w.epoch ≠ room.lock.epoch)) = waiting :=
    List.filter_congr fun w _ => by simp
  have hread : (waiting.filter fun w => !decide (w.mode = .write)) =
      waiting.filter (·.mode = .read) :=
    List.filter_congr fun w _ => by cases w.mode <;> rfl
  have hmodes := List.filter_append_perm (fun w : Waiter κ => w.mode = .write) waiting
  have hall := List.filter_append_perm (fun w : Waiter κ => w.epoch ≠ room.lock.epoch) room.waiters
  rw [hread] at hmodes
  rw [hrest] at hall
  refine List.Perm.map _ (List.Perm.trans ?_ hall)
  rw [List.append_assoc]
  exact hmodes.append_left _

theorem Orderly.round (ho : room.Orderly) : room.round.2.Orderly := by
  obtain ⟨deeds, run⟩ := exists_schedule room.woken room.woken.turns
  rw [round_eq]
  exact run.follows.orderly (ho.of_atRest room.atRest_woken)

/-- **A round in which nobody returns is the last.** -/
theorem Orderly.settled_round (ho : room.Orderly)
    (hlast : room.waiters.length ≤ room.round.2.waiters.length) : room.round.2.Settled := by
  have hwoken := ho.of_atRest room.atRest_woken
  have hperm := room.woken.turns_perm
  have hlength : room.woken.waiters.length = room.waiters.length := List.length_map ..
  rw [round_eq] at hlast ⊢
  obtain ⟨hrest, hnone⟩ := hwoken.stuck (hperm.nodup_iff.2 hwoken.once)
    (fun w hw _ => by
      obtain ⟨v, -, rfl⟩ := List.mem_map.1 hw
      rfl)
    (by rwa [hlength])
  exact settled_congr hrest fun w hw => hnone w hw (hperm.mem_iff.2 (List.mem_map_of_mem hw))

theorem settle_eq (room : Room κ) :
    room.settle.2 =
      if room.round.2.waiters.length < room.waiters.length then room.round.2.settle.2
      else room.round.2 := by
  rw [settle]
  rcases room.round with ⟨endings, after⟩
  dsimp only
  split <;> rfl

/-- A round leaves the room its outcome. -/
theorem Orderly.outcome_round (ho : room.Orderly)
    (hone : room.waiters.countP (·.mode = .write) ≤ 1) :
    room.round.2.waiters.countP (·.mode = .write) ≤ 1 ∧ room.round.2.outcome = room.outcome := by
  obtain ⟨deeds, run⟩ := exists_schedule room.woken room.woken.turns
  have hone' : room.woken.waiters.countP (·.mode = .write) ≤ 1 := by
    rw [woken, List.countP_map]
    exact hone
  rw [round_eq, ← outcome_congr room.atRest_woken]
  exact ⟨run.writers_le hone', run.outcome_eq (ho.of_atRest room.atRest_woken) hone'⟩

/-- Settling ends with a round in which nobody returns, and up to it holds what a round keeps. -/
theorem exists_last_round {P : Room κ → Prop} (hround : ∀ now : Room κ, P now → P now.round.2)
    (room : Room κ) (h : P room) :
    ∃ before : Room κ, P before ∧ before.waiters.length ≤ before.round.2.waiters.length ∧
      room.settle.2 = before.round.2 := by
  rw [settle_eq]
  split
  · exact exists_last_round hround room.round.2 (hround room h)
  · rename_i hlast
    exact ⟨room, h, Nat.le_of_not_lt hlast, rfl⟩
termination_by room.waiters.length

/-- **Settling ends where nobody can get on.** -/
theorem Orderly.settled_settle (ho : room.Orderly) : room.settle.2.Settled := by
  obtain ⟨before, hbefore, hlast, hsettle⟩ := exists_last_round (fun _ => Orderly.round) room ho
  rw [hsettle]
  exact hbefore.settled_round hlast

/-- **Settling comes to the end that every order comes to.** -/
theorem Orderly.atRest_settle (ho : room.Orderly)
    (hone : room.waiters.countP (·.mode = .write) ≤ 1) :
    room.settle.2.atRest = room.outcome := by
  obtain ⟨before, ⟨hbefore, hone', houtcome⟩, -, hsettle⟩ := exists_last_round
    (P := fun now => now.Orderly ∧ now.waiters.countP (·.mode = .write) ≤ 1 ∧
      now.outcome = room.outcome)
    (fun now ⟨hnow, hone', houtcome⟩ =>
      ⟨hnow.round, (hnow.outcome_round hone').1, (hnow.outcome_round hone').2.trans houtcome⟩)
    room ⟨ho, hone, rfl⟩
  have hend : room.settle.2.outcome = room.outcome := by
    rw [hsettle, (hbefore.outcome_round hone').2, houtcome]
  have horderly : room.settle.2.Orderly := hsettle ▸ hbefore.round
  rw [← horderly.outcome_settled ho.settled_settle, hend]

end

end Folio.Lock.Room
