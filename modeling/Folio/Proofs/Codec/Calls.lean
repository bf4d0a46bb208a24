import Folio.Proofs.Codec.Skipping

/-! # How often an item is asked for

The count of a list is data.  It may be anything that fits into 64 bits, and the loop over the items
runs up to it.  What ends the loop early is that there are no bytes left: an item that takes at
least one byte whenever it succeeds (`Spends`) cannot succeed more often than there are bytes, and
the first failure is the last call.

What a loop returns does not show how often it called its item.  So a loop is run over an item with
a meter (`metered`), which is the same loop in a larger state, and `Meters` says of it that it comes
to the same and that the meter has moved on by so much at most.  The loops over items are written
over any state for this.  Reading to the end of the data is written over readers, and
`untilEnd_remaining` says that it is the same loop.
-/
namespace Folio.Codec

variable {α β σ : Type}

/-! ## What a step takes -/

/-- Whenever the step succeeds, at least `k` of what was left are gone. -/
def Spends (left : σ → Nat) (k : Nat) (step : EStateM Error σ α) : Prop :=
  ∀ s a s', step s = .ok a s' → left s' + k ≤ left s

section Spending
variable {left : σ → Nat} {k m : Nat} {step : EStateM Error σ α} {f : α → EStateM Error σ β}

theorem spends_pure (a : α) : Spends left 0 (pure a : EStateM Error σ α) := by
  intro s b s' h
  cases h
  exact Nat.le_refl _

theorem Spends.bind (h : Spends left k step) (hf : ∀ a, Spends left m (f a)) :
    Spends left (k + m) (step >>= f) := by
  intro s b s' hrun
  obtain ⟨a, now, hstep, hrest⟩ := bind_eq_ok_iff.1 hrun
  have hfirst := h s a now hstep
  have hsecond := hf a now b s' hrest
  omega

theorem Spends.mono (h : Spends left k step) (hle : m ≤ k) : Spends left m step :=
  fun s a s' hrun => Nat.le_trans (Nat.add_le_add_left hle _) (h s a s' hrun)

theorem Spends.lt (h : Spends left k step) (hk : 0 < k) {s s' : σ} {a : α}
    (hrun : step s = .ok a s') : left s' < left s :=
  Nat.lt_of_lt_of_le (Nat.lt_add_of_pos_right hk) (h s a s' hrun)

theorem Spends.within (h : Spends left k step) : Spends left k (Codec.within step) :=
  fun s a s' hrun => h s a s' (within_eq_ok_iff.1 hrun)

/-- Items take what each of them takes. -/
theorem Spends.times (h : Spends left k step) (count : Nat) :
    Spends left (k * count) (Codec.times step count) := by
  induction count with
  | zero => exact spends_pure []
  | succ count ih =>
    have hboth := h.bind fun a => ih.bind fun others => spends_pure (a :: others)
    rwa [Nat.add_zero, Nat.add_comm, ← Nat.mul_succ] at hboth

/-- **More items than there are bytes are not there.** -/
theorem Spends.times_error (h : Spends left 1 step) {count : Nat} {s : σ} (hmany : left s < count) :
    ∃ e s', Codec.times step count s = .error e s' := by
  cases hrun : Codec.times step count s with
  | error e s' => exact ⟨e, s', rfl⟩
  | ok items s' =>
    have hspent := h.times count s items s' hrun
    omega

/-- A decoder takes the bytes of what it reads. -/
theorem Decoder.Parses.spends {S : Bytes → α → Prop} {d : Decoder α} (hd : d.Parses S)
    (hS : ∀ code a, S code a → k ≤ code.length) : Spends Reader.remaining k d := by
  intro r a r' hrun
  obtain ⟨code, hprefix, hspells, rfl⟩ := (hd r a r').1 hrun
  have hcode := hS code a hspells
  have hfits := hprefix.length_le
  rw [← r.remaining_eq] at hfits
  show r.remaining - code.length + k ≤ r.remaining
  omega

/-- What walks together takes the same. -/
theorem Copier.SkippedBy.spends {copy : Copier α} {skip : Decoder α} (h : copy.SkippedBy skip)
    (hskip : Spends Reader.remaining k skip) : Spends (·.input.remaining) k copy := by
  intro t a t' hrun
  exact hskip t.input a t'.input (h.ok hrun)

end Spending

theorem spends_unsigned : Spends Reader.remaining 1 (readUnsigned 64) :=
  (parses_unsigned (Nat.le_refl 64)).spends fun _ _ h => h.1.length_pos

theorem spends_skipVarints (count : Nat) : Spends Reader.remaining count (skipVarints count) := by
  refine (parses_skipVarints count).spends fun code _ => ?_
  rintro ⟨values, rfl, hseries⟩
  have hbytes := hseries.mul_le_length fun _ _ hspells => hspells.length_pos
  rwa [Nat.one_mul] at hbytes

theorem spends_block : Spends Reader.remaining 1 readBlock := by
  refine parses_block.spends fun code block => ?_
  rintro ⟨lead, hlead, -, rfl⟩
  have hpos := hlead.length_pos
  rw [List.length_append]
  omega

/-- Blocks are skipped where they could be read. -/
theorem spends_skipBlocks (count : Nat) : Spends Reader.remaining count (skipBlocks count) := by
  have hmany := spends_block.times count
  rw [Nat.one_mul] at hmany
  intro r _ r' hrun
  obtain ⟨blocks, hread⟩ := skipBlocks_eq_ok_iff.1 hrun
  exact hmany r blocks r' hread

theorem spends_skipRaw (count : Nat) : Spends Reader.remaining count (skipRaw count) := by
  intro r _ r' hrun
  obtain ⟨n, hspan, rfl⟩ := skipSpan_eq_ok_iff.1 hrun
  unfold Span.raw at hspan
  split at hspan
  · rename_i hfits
    cases hspan
    rw [hasAtLeast_iff, ← r.remaining_eq] at hfits
    show r.remaining - count + count ≤ r.remaining
    omega
  · cases hspan

/-! ## A meter -/

/-- The same ending, with a meter beside the state. -/
def withReading (reading : Nat) : EStateM.Result Error σ α → EStateM.Result Error (σ × Nat) α
  | .ok a s => .ok a (s, reading)
  | .error e s => .error e (s, reading)

/-- Runs a step and moves the meter on by `cost`, however the step ends. -/
def metered (cost : Nat) (step : EStateM Error σ α) : EStateM Error (σ × Nat) α :=
  fun s => withReading (s.2 + cost) (step s.1)

/-- Runs a step; should it fail, everything is put back but the meter. -/
def putBackMetered (step : EStateM Error (σ × Nat) α) : EStateM Error (σ × Nat) α := fun s =>
  match step s with
  | .ok a s' => .ok a s'
  | .error e s' => .error e (s.1, s'.2)

/-- **`counting` does what `step` does**, and moves the meter on by at most `bound`. -/
def Meters (counting : EStateM Error (σ × Nat) α) (step : EStateM Error σ α) (bound : σ → Nat) :
    Prop :=
  ∀ s n, ∃ calls ≤ bound s, counting (s, n) = withReading (n + calls) (step s)

section Metering
variable {counting : EStateM Error (σ × Nat) α} {step : EStateM Error σ α} {bound : σ → Nat}

theorem meters_metered (cost : Nat) (step : EStateM Error σ α) :
    Meters (metered cost step) step fun _ => cost :=
  fun _ _ => ⟨cost, Nat.le_refl cost, rfl⟩

theorem meters_pure (a : α) :
    Meters (pure a) (pure a : EStateM Error σ α) fun _ => 0 :=
  fun _ _ => ⟨0, Nat.le_refl 0, rfl⟩

theorem Meters.within (h : Meters counting step bound) :
    Meters (Codec.within counting) (Codec.within step) bound := by
  intro s n
  obtain ⟨calls, hcalls, hrun⟩ := h s n
  refine ⟨calls, hcalls, ?_⟩
  rw [Codec.within, hrun, Codec.within]
  cases step s <;> rfl

theorem Meters.putBack (h : Meters counting step bound) :
    Meters (putBackMetered counting) (Codec.putBack step) bound := by
  intro s n
  obtain ⟨calls, hcalls, hrun⟩ := h s n
  refine ⟨calls, hcalls, ?_⟩
  rw [putBackMetered, hrun, Codec.putBack]
  cases step s <;> rfl

/-- **One step after another**: if the first one fails the second one costs nothing. -/
theorem Meters.bind {next : α → EStateM Error (σ × Nat) β} {f : α → EStateM Error σ β}
    {more : α → σ → Nat} {total : σ → Nat} (h : Meters counting step bound)
    (hnext : ∀ a, Meters (next a) (f a) (more a)) (herror : ∀ s, bound s ≤ total s)
    (hok : ∀ s a s', step s = .ok a s' → bound s + more a s' ≤ total s) :
    Meters (counting >>= next) (step >>= f) total := by
  intro s n
  obtain ⟨calls, hcalls, hrun⟩ := h s n
  cases hstep : step s with
  | error e s' =>
    rw [hstep] at hrun
    refine ⟨calls, Nat.le_trans hcalls (herror s), ?_⟩
    rw [bind_of_error hrun, bind_of_error hstep]
    rfl
  | ok a s' =>
    rw [hstep] at hrun
    obtain ⟨others, hothers, hrest⟩ := hnext a s' (n + calls)
    refine ⟨calls + others, Nat.le_trans (Nat.add_le_add hcalls hothers) (hok s a s' hstep), ?_⟩
    rw [bind_of_ok hrun, bind_of_ok hstep, hrest, Nat.add_assoc]

theorem Meters.map (h : Meters counting step bound) (f : α → β) :
    Meters (counting >>= fun a => Pure.pure (f a)) (step >>= fun a => Pure.pure (f a)) bound :=
  h.bind (fun a => meters_pure (f a)) (fun _ => Nat.le_refl _) fun _ _ _ _ => Nat.le_refl _

variable {left : σ → Nat}

/-- **Items are asked for once more than there are bytes**, however many are counted. -/
theorem Meters.times (h : Meters counting step fun _ => 1) (hspends : Spends left 1 step)
    (count : Nat) :
    Meters (Codec.times counting count) (Codec.times step count) (left · + 1) := by
  induction count with
  | zero => exact fun _ _ => ⟨0, Nat.zero_le _, rfl⟩
  | succ count ih =>
    refine h.bind (fun a => ih.map (a :: ·)) (fun _ => Nat.le_add_left _ _) fun s a s' hstep => ?_
    have hspent := hspends s a s' hstep
    show 1 + (left s' + 1) ≤ left s + 1
    omega

/-- What stands before the items costs nothing and may make them fewer. -/
theorem Meters.behind {number : EStateM Error σ Nat} {next : Nat → EStateM Error (σ × Nat) β}
    {f : Nat → EStateM Error σ β} (h : ∀ count, Meters (next count) (f count) (left · + 1))
    (hnumber : Spends left 0 number) :
    Meters (metered 0 number >>= next) (number >>= f) (left · + 1) := by
  refine (meters_metered 0 number).bind h (fun _ => Nat.zero_le _) fun s a s' hrun => ?_
  have hspent := hnumber s a s' hrun
  show 0 + (left s' + 1) ≤ left s + 1
  omega

end Metering

/-! ## Lists of items -/

section
variable {left : σ → Nat} {item : EStateM Error σ α}

/-- **Each item of a list is asked for with one call**, and the calls are bounded by the bytes.  An
item that keeps something of its own from call to call keeps it in the state. -/
theorem meters_items (hspends : Spends left 1 item) (count : Nat) :
    Meters (times (within (metered 1 item)) count) (times (within item) count) (left · + 1) :=
  (meters_metered 1 item).within.times hspends.within count

end

section
variable {item : Decoder α}

theorem meters_readCounted (hspends : Spends Reader.remaining 1 item) :
    Meters (metered 0 (readUnsigned 64) >>= times (within (metered 1 item))) (readCounted item)
      (·.remaining + 1) :=
  .behind (meters_items hspends) (spends_unsigned.mono (Nat.zero_le 1))

/-- More items than bytes cannot be counted. -/
theorem readCounted_error (hspends : Spends Reader.remaining 1 item) {r now : Reader}
    {count : Nat} (hcount : readUnsigned 64 r = .ok count now) (hmany : now.remaining < count) :
    ∃ e r', readCounted item r = .error e r' := by
  obtain ⟨e, r', hitems⟩ := hspends.within.times_error hmany
  exact ⟨e, r', (bind_of_ok hcount).trans hitems⟩

end

/-! ## Reading to the end over any state -/

/-- Reads items as long as something is left.  The list ends with an item that takes nothing. -/
def untilEnd (left : σ → Nat) (item : EStateM Error σ α) : EStateM Error σ (List α) := fun s =>
  if left s = 0 then .ok [] s
  else
    match within item s with
    | .error e s' => .error e s'
    | .ok first s' =>
      if left s' < left s then
        match untilEnd left item s' with
        | .ok others s'' => .ok (first :: others) s''
        | .error e s'' => .error e s''
      else .ok [first] s'
termination_by s => left s

/-- Over readers it is the loop that reads to the end of the data. -/
theorem untilEnd_remaining (item : Decoder α) : untilEnd Reader.remaining item = readToEnd item := by
  funext r
  induction hn : r.remaining using Nat.strongRecOn generalizing r with
  | ind n ih =>
    subst hn
    rw [untilEnd, readToEnd]
    have hempty : (r.unread.isEmpty = true) = (r.remaining = 0) := by
      rw [List.isEmpty_iff, r.unread_eq_nil_iff]
    simp only [hempty]
    split
    · rfl
    cases within item r with
    | error e r' => rfl
    | ok first r' =>
      dsimp only
      split
      · rename_i hlt
        rw [ih r'.remaining hlt r' rfl]
        cases readToEnd item r' <;> rfl
      · rfl

/-- **An open-ended list asks for no more items than there are bytes.** -/
theorem meters_untilEnd {left : σ → Nat} {item : EStateM Error σ α} (hspends : Spends left 1 item) :
    Meters (untilEnd (fun s => left s.1) (metered 1 item)) (untilEnd left item) left := by
  intro s n
  induction hleft : left s using Nat.strongRecOn generalizing s n with
  | ind k ih =>
    subst hleft
    rw [untilEnd, untilEnd]
    by_cases hnone : left s = 0
    · rw [if_pos hnone, if_pos hnone]
      exact ⟨0, Nat.zero_le _, rfl⟩
    rw [if_neg hnone, if_neg hnone]
    cases hitem : item s with
    | error e s' =>
      refine ⟨1, Nat.pos_of_ne_zero hnone, ?_⟩
      simp only [within, metered, hitem, withReading]
    | ok a s' =>
      have hlt := hspends.lt Nat.one_pos hitem
      obtain ⟨calls, hcalls, hrest⟩ := ih (left s') hlt s' (n + 1) rfl
      refine ⟨1 + calls, by omega, ?_⟩
      simp only [within, metered, hitem, withReading, if_pos hlt, hrest, Nat.add_assoc]
      cases untilEnd left item s' <;> rfl

end Folio.Codec
