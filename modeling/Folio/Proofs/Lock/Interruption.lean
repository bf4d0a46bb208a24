import Folio.Proofs.Lock.Waking

/-! # Who is called off does not get the lock

An interruption changes the lock's epoch, and an acquire that blocked before sees at its next turn
that its epoch has passed.  It looks at the epoch before it looks at the lock, and after its time
has run out as well, so nothing that happens meanwhile lets it in.  The epoch has 64 bits: it comes
round to where it was after that many calls, and not before.

**`Follows.interruption_final`** follows those who waited when they were called off through
everything that happens later, and those who came later as well: they are interrupted only by
another call.
-/
namespace Folio.Lock.Room

variable {κ : Type} [DecidableEq κ]

/-- An epoch that is past does not return before it has gone round the 64 bits. -/
theorem epoch_add_ne {n : Nat} (hpos : 0 < n) (hfew : n < 2 ^ 64) (epoch : UInt64) :
    epoch + UInt64.ofNat n ≠ epoch := by
  intro h
  rw [UInt64.add_eq_left] at h
  have hzero : n % 2 ^ 64 = 0 := congrArg UInt64.toNat h
  rw [Nat.mod_eq_of_lt hfew] at hzero
  omega

section
variable {room after : Room κ} {deeds : List (Deed κ)} {w : Waiter κ}

/-- A waiter that has been called off is interrupted by whichever turn it takes. -/
theorem Orderly.turn_called_off (ho : room.Orderly) (hw : w ∈ room.waiters)
    (hoff : w.epoch ≠ room.lock.epoch) {step : Step κ}
    (hturn : (step = .resume w.caller ∧ w.awake = true) ∨
      (step = .expire w.caller ∧ room.lock.timeout ≠ none)) :
    room.perform step = (some (.ended w.caller w.mode (.error (.interrupted w.mode))),
      (room.conclude w (.error (.interrupted w.mode))).2) := by
  have hfind : room.waiters.find? (·.caller = w.caller) = some w := ho.find?_eq hw
  rcases hturn with ⟨rfl, hawake⟩ | ⟨rfl, htimed⟩
  · rw [perform_resume hfind hawake, verdict_called_off hoff]
  · obtain ⟨limit, hlimit⟩ := Option.ne_none_iff_exists'.1 htimed
    rw [perform_expire hfind hlimit, verdict_called_off hoff]
    rfl

/-- Who is interrupted has been called off since he blocked. -/
theorem Orderly.called_off_of_interrupted (ho : room.Orderly) (hw : w ∈ room.waiters)
    {step : Step κ}
    (h : (room.perform step).1 = some (.ended w.caller w.mode (.error (.interrupted w.mode)))) :
    w.epoch ≠ room.lock.epoch := by
  intro hsame
  rcases (room.perform_takes step).stays_or_ends ho hw with
    ⟨hnone, -⟩ | ⟨result, hevent, -, hresult⟩
  · rw [Deed.result?, h] at hnone
    exact absurd hnone (by simp [Event.result?])
  · rw [h] at hevent
    cases hevent
    rcases hresult with hverdict | ⟨-, limit, -, hlimit⟩
    · rw [verdict_of_epoch hsame] at hverdict
      split at hverdict <;> cases hverdict
    · cases hlimit

/-- **Who has been called off waits on or is interrupted**, whatever happens, as long as the epoch
does not come round to his. -/
theorem Follows.called_off (run : room.Follows deeds after) (ho : room.Orderly)
    (hw : w ∈ room.waiters)
    (hpast : ∀ n ≤ Deed.calls deeds, w.epoch ≠ room.lock.epoch + UInt64.ofNat n) :
    Deed.returned? w.caller deeds = some (.error (.interrupted w.mode)) ∨
      Deed.returned? w.caller deeds = none ∧
        ∃ v ∈ after.waiters, v.setAwake false = w.setAwake false := by
  induction run with
  | start => exact Or.inr ⟨rfl, w, hw, rfl⟩
  | @step deeds now before step allowed ih =>
    rw [Deed.calls_concat] at hpast
    rw [Deed.returned?_concat]
    rcases ih fun n hn => hpast n (Nat.le_add_right_of_le hn) with h | ⟨h, v, hv, hsame⟩
    · exact Or.inl (by rw [h]; rfl)
    · obtain ⟨hcaller, hmode, hepoch⟩ := eq_of_setAwake hsame
      have hoff : verdict now.lock v = some (.error (.interrupted v.mode)) := by
        refine verdict_called_off ?_
        rw [hepoch, before.epoch_eq]
        exact hpast _ (Nat.le_add_right ..)
      rw [h, Option.none_or]
      rcases (now.perform_takes step).stays_or_ends (before.orderly ho) hv with
        ⟨hnot, u, hu, hsame'⟩ | ⟨result, hevent, -, hresult⟩
      · exact Or.inr ⟨hcaller ▸ hnot, u, hu, hsame'.trans hsame⟩
      · have hresult : result = .error (.interrupted w.mode) := by
          rcases hresult with h | ⟨h, -⟩
          · rw [hoff, hmode] at h
            exact (Option.some.inj h).symm
          · rw [hoff] at h
            cases h
        refine Or.inl ?_
        rw [Deed.result?, hevent, ← hcaller, ← hresult]
        exact if_pos rfl

/-- The epochs of those who wait when they are called off are past then and remain so. -/
theorem Follows.epoch_past {timeout : Option Duration} {earlier : List (Deed κ)}
    (run : (opened timeout).Follows earlier room) (hw : w ∈ room.waiters) {n : Nat}
    (hfew : Deed.calls earlier + 1 + n < 2 ^ 64) :
    w.epoch ≠ room.interrupt.lock.epoch + UInt64.ofNat n := by
  rcases run.waiter_cases hw with ⟨-, hdated⟩ | ⟨-, v, hv, -⟩
  · have hsince := Deed.callsSince_le w.caller earlier
    have hnow : room.interrupt.lock.epoch + UInt64.ofNat n =
        w.epoch + UInt64.ofNat (Deed.callsSince w.caller earlier + 1 + n) := by
      show room.lock.epoch + 1 + UInt64.ofNat n = _
      rw [hdated, UInt64.ofNat_add, UInt64.ofNat_add]
      simp only [UInt64.add_assoc]
      rfl
    rw [hnow]
    exact (epoch_add_ne (by omega) (by omega) _).symm
  · cases hv

/-- **Being called off is final.**  It leaves the holds alone.  Those who wait at that time never
obtain the lock: as long as one of them has not returned it waits on and is awake or about to be
woken, and at the next turn it takes, even after its time and whoever holds the lock, it is
interrupted and the holds stay what they are.  Once all of them have returned, the writers that are
counted are those that have blocked since.  And who comes later is let in or blocks as the lock
stands, and is interrupted only by another call after that. -/
theorem Follows.interruption_final {timeout : Option Duration} {earlier later : List (Deed κ)}
    (before : (opened timeout).Follows earlier room) (run : room.interrupt.Follows later after)
    (hfew : Deed.calls earlier + 1 + Deed.calls later < 2 ^ 64) :
    (∀ mode, room.interrupt.lock.holds mode = room.lock.holds mode) ∧
    (∀ w ∈ room.waiters,
      Deed.returned? w.caller later = some (.error (.interrupted w.mode)) ∨
      Deed.returned? w.caller later = none ∧
        ∃ v ∈ after.waiters, v.setAwake false = w.setAwake false ∧
          (v.awake = true ∨ 0 < after.notices) ∧
          ∀ step, (step = .resume w.caller ∧ v.awake = true) ∨
              (step = .expire w.caller ∧ after.lock.timeout ≠ none) →
            ∃ next, after.perform step =
                (some (.ended w.caller w.mode (.error (.interrupted w.mode))), next) ∧
              ∀ mode, next.lock.holds mode = after.lock.holds mode) ∧
    ((∀ w ∈ room.waiters, Deed.returned? w.caller later ≠ none) →
      after.lock.waitingWriters = after.waiters.countP (·.mode = .write) ∧
        ∀ v ∈ after.waiters, Deed.Blocked v.caller later) ∧
    (∀ v ∈ after.waiters, Deed.Blocked v.caller later → ∀ step next,
      after.perform step = (some (.ended v.caller v.mode (.error (.interrupted v.mode))), next) →
        0 < Deed.callsSince v.caller later) ∧
    ∀ caller mode, (after.perform (.arrive caller mode)).1 =
      some (if after.lock.admits mode then .granted mode else .blocked caller mode) := by
  have ho := before.orderly (orderly_new timeout)
  have hcall : room.Takes .interrupt none room.interrupt := .interrupted
  have ho' : room.interrupt.Orderly := ho.does (room.perform_does .interrupt) trivial
  have ha' := (before.alert (orderly_new timeout) (alert_opened timeout)).takes ho hcall
  have horderly := run.orderly ho'
  have hpast (w : Waiter κ) (hw : w ∈ room.waiters) (n : Nat) (hn : n ≤ Deed.calls later) :
      w.epoch ≠ room.interrupt.lock.epoch + UInt64.ofNat n := before.epoch_past hw (by omega)
  refine ⟨fun mode => rfl, fun w hw => ?_, fun hall => ⟨horderly.counted, fun v hv => ?_⟩,
    fun v hv hnew step next hstep => ?_, fun caller mode => ?_⟩
  · refine (run.called_off ho' hw (hpast w hw)).imp_right fun ⟨hnot, v, hv, hsame⟩ => ?_
    obtain ⟨hcaller, hmode, hepoch⟩ := eq_of_setAwake hsame
    have hoff : v.epoch ≠ after.lock.epoch := by
      rw [hepoch, run.epoch_eq]
      exact hpast w hw _ (Nat.le_refl _)
    refine ⟨hnot, v, hv, hsame, ?_, fun step hturn => ?_⟩
    · refine (run.alert ho' ha' v hv).imp_right (Or.resolve_right · fun hnone => ?_)
      rw [verdict_called_off hoff] at hnone
      cases hnone
    · rw [← hcaller] at hturn ⊢
      rw [← hmode]
      exact ⟨_, horderly.turn_called_off hv hoff hturn, fun mode => holds_dismiss ..⟩
  · refine (run.waiter_cases hv).elim And.left fun ⟨hnot, w, hw, hsame⟩ => ?_
    have hreturned := run.returned?_eq_none ho' hv hnot
    rw [(eq_of_setAwake hsame).1] at hreturned
    exact absurd hreturned (hall w hw)
  · have hoff := horderly.called_off_of_interrupted hv (congrArg Prod.fst hstep)
    rcases run.waiter_cases hv with ⟨-, hdated⟩ | ⟨hnot, -⟩
    · refine Nat.pos_of_ne_zero fun hzero => hoff ?_
      rw [hdated, hzero]
      exact (UInt64.add_zero _).symm
    · exact absurd hnew hnot
  · rcases after.arrive_cases caller mode with ⟨hfree, harrive⟩ | ⟨hfree, harrive⟩ <;>
      simp [perform, harrive, hfree]

end

/-- A reader and a writer are called off.  The lock becomes free, the reader returns and the time of
the writer runs out, and it is interrupted all the same. -/
theorem Follows.interruption_final_when_free :
    ∃ (earlier later : List (Deed Nat)) (room after : Room Nat),
      (opened (some ⟨1⟩)).Follows earlier room ∧ room.interrupt.Follows later after ∧
      Deed.calls earlier + 1 + Deed.calls later < 2 ^ 64 ∧ room.waiters.map (·.caller) = [1, 2] ∧
      after.lock.admits .write = true ∧
      Deed.returned? 1 later = some (.error (.interrupted .read)) ∧
      ∃ next, after.perform (.expire 2) =
        (some (.ended 2 .write (.error (.interrupted .write))), next) := by
  let room : Room Nat :=
    { lock := { writer := true, waitingWriters := 1, timeout := some ⟨1⟩ }
      waiters := [{ caller := 1, mode := .read, epoch := 0 },
        { caller := 2, mode := .write, epoch := 0 }] }
  have free : (opened (some ⟨1⟩) : Room Nat).Follows [] (opened (some ⟨1⟩)) := .start
  have before : (opened (some ⟨1⟩)).Follows _ room := ((free.step (.arrive 0 .write)
    (by decide)).step (.arrive 1 .read) (by decide)).step (.arrive 2 .write) (by decide)
  have called : room.interrupt.Follows [] room.interrupt := .start
  have run := ((called.step (.release .write) (by decide)).step .deliver (by decide)).step
    (.resume 1) (by decide)
  obtain ⟨-, hfinal, -⟩ := before.interruption_final run (by decide)
  have hreader := (hfinal { caller := 1, mode := .read, epoch := 0 } (by decide)).resolve_right
    fun h => absurd h.1 (by decide)
  obtain ⟨-, v, -, -, -, hturn⟩ := (hfinal { caller := 2, mode := .write, epoch := 0 }
    (by decide)).resolve_left (by decide)
  obtain ⟨next, hnext, -⟩ := hturn (.expire 2) (Or.inr ⟨rfl, by decide⟩)
  exact ⟨_, _, room, _, before, run, by decide, rfl, by decide, hreader, next, hnext⟩

end Folio.Lock.Room
