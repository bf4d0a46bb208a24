import Folio.Proofs.Codec.Taking

/-! # A machine and what it shows

A place in a block shows a reader and an output (`Place.transfer`), and a step on a machine mirrors
a step without one if it does not fault and shows the same from any place in the block
(`Checked.Mirrors`).  For steps to be put together it has to be known as well that a step, even one
that fails, only moves forward in the block and only adds to the output (`Place.Leads`): that is
why going back after a failure is going backwards, and why cutting the output to its old length
gives back the old output.
-/
namespace Folio.Codec

variable {α β : Type}

namespace Copier

/-- Runs a step and tells how it ended. -/
def attempt (step : Copier α) : Copier (Except Error α) := fun t =>
  match step t with
  | .ok a t' => .ok (.ok a) t'
  | .error e t' => .ok (.error e) t'

/-! ## Reading steps -/

theorem reading_pure (a : α) : reading (pure a) = pure a := rfl

section
variable {d : Decoder α} {f : α → Decoder β} {t : Transfer} {r : Reader} {a : α} {e : Error}

theorem reading_of_ok (h : d t.input = .ok a r) : reading d t = .ok a { t with input := r } := by
  rw [reading, h]

theorem reading_of_error (h : d t.input = .error e r) :
    reading d t = .error e { t with input := r } := by
  rw [reading, h]

end

theorem reading_bind (d : Decoder α) (f : α → Decoder β) :
    reading (d >>= f) = reading d >>= fun a => reading (f a) := by
  funext t
  cases hd : d t.input with
  | error e r =>
    rw [bind_of_error (reading_of_error hd), reading_of_error (bind_of_error hd)]
  | ok a r =>
    rw [bind_of_ok (reading_of_ok hd), reading, bind_of_ok hd, reading]

theorem reading_within (d : Decoder α) : reading (within d) = within (reading d) := by
  funext t
  cases hd : d t.input with
  | error e r =>
    have herror : within d t.input = .error e.within r := within_eq_error_iff.2 ⟨e, hd, rfl⟩
    rw [reading_of_error herror, within, reading_of_error hd]
  | ok a r =>
    rw [reading_of_ok (within_eq_ok_iff.2 hd), within, reading_of_ok hd]

theorem reading_times (item : Decoder α) (count : Nat) :
    reading (times item count) = times (reading item) count := by
  induction count with
  | zero => rfl
  | succ count ih =>
    unfold times
    simp only [reading_bind, reading_pure, ih]

end Copier

namespace Place

/-- The reader at this place of the block, and the output. -/
def transfer (block : Bytes) (p : Place) : Transfer where
  input := (Reader.ofBytes block).advance p.position
  output := p.output

/-- How a step ends that stops at this place. -/
def ending (block : Bytes) (p : Place) : Except Error α → EStateM.Result Error Transfer α
  | .ok a => .ok a (p.transfer block)
  | .error e => .error e (p.transfer block)

/-- **From one place to another in the block**: the cursor has not gone back, and what was written
is still there. -/
structure Leads (block : Bytes) (p p' : Place) : Prop where
  forward : p.position ≤ p'.position
  inside : p'.position ≤ block.length
  output : ∃ written : Bytes, p'.output = p.output ++ written

variable {block : Bytes} {p p' p'' : Place}

theorem Leads.refl (hp : p.position ≤ block.length) : p.Leads block p :=
  ⟨Nat.le_refl _, hp, [], (append_nil _).symm⟩

theorem Leads.trans (h : p.Leads block p') (h' : p'.Leads block p'') : p.Leads block p'' := by
  obtain ⟨written, hwritten⟩ := h.output
  obtain ⟨more, hmore⟩ := h'.output
  refine ⟨h.forward.trans h'.forward, h'.inside, written ++ more, ?_⟩
  rw [hmore, hwritten, append_append]

/-- Behind the next `n` bytes, which have been copied. -/
def copied (block : Bytes) (p : Place) (n : Nat) : Place where
  position := p.position + n
  output := p.output ++ (block.drop p.position).take n

section
variable {n : Nat} (hn : n ≤ (block.drop p.position).length) (hp : p.position ≤ block.length)

include hn hp

theorem leads_pass : p.Leads block (p.pass n) := by
  rw [List.length_drop] at hn
  exact ⟨Nat.le_add_right .., show p.position + n ≤ _ by omega, [], (append_nil _).symm⟩

theorem leads_copied : p.Leads block (p.copied block n) :=
  ⟨Nat.le_add_right .., (leads_pass hn hp).inside, _, rfl⟩

end

theorem transfer_pass (p : Place) (n : Nat) :
    (p.pass n).transfer block =
      { p.transfer block with input := (p.transfer block).input.advance n } := by
  simp only [transfer, pass, Reader.advance_advance]

theorem transfer_copied (p : Place) (n : Nat) :
    (p.copied block n).transfer block = (p.transfer block).copied n := by
  simp only [transfer, copied, Transfer.copied, Reader.advance_advance]
  rfl

end Place

namespace Checked

/-- **A step on a machine does not fault and shows what a step does.** -/
def Mirrors (block : Bytes) (machine : Checked α) (step : Copier α) : Prop :=
  ∀ p : Place, p.position ≤ block.length → ∃ result p', machine p = some (result, p') ∧
    step (p.transfer block) = p'.ending block result ∧ p.Leads block p'

variable {block : Bytes} {machine : Checked α} {step : Copier α}

/-! ## Putting steps together -/

theorem mirrors_pure (a : α) : Mirrors block (pure a) (pure a) :=
  fun p hp => ⟨.ok a, p, rfl, rfl, .refl hp⟩

theorem mirrors_throw (e : Error) : Mirrors block (throw e : Checked α) (throw e) :=
  fun p hp => ⟨.error e, p, rfl, rfl, .refl hp⟩

theorem Mirrors.bind {next : α → Checked β} {next' : α → Copier β} (h : Mirrors block machine step)
    (hnext : ∀ a, Mirrors block (next a) (next' a)) :
    Mirrors block (machine >>= next) (step >>= next') := by
  intro p hp
  obtain ⟨result, p', hrun, hstep, hleads⟩ := h p hp
  cases result with
  | error e => exact ⟨.error e, p', bind_of_error hrun, Codec.bind_of_error hstep, hleads⟩
  | ok a =>
    obtain ⟨result, p'', hrun', hstep', hleads'⟩ := hnext a p' hleads.inside
    exact ⟨result, p'', (bind_of_ok hrun).trans hrun', (Codec.bind_of_ok hstep).trans hstep',
      hleads.trans hleads'⟩

theorem Mirrors.attempt (h : Mirrors block machine step) :
    Mirrors block (attempt machine) step.attempt := by
  intro p hp
  obtain ⟨result, p', hrun, hstep, hleads⟩ := h p hp
  refine ⟨.ok result, p', ?_, ?_, hleads⟩
  · cases result with
    | ok a => exact tryCatch_of_ok (bind_of_ok hrun)
    | error e => exact tryCatch_of_error (bind_of_error hrun)
  · rw [Copier.attempt, hstep]
    cases result <;> rfl

/-- **Going back goes backwards**, and the output is cut to what it was. -/
theorem Mirrors.atomically (h : Mirrors block machine step) :
    Mirrors block (atomically block machine) (Copier.atomically step) := by
  intro p hp
  obtain ⟨result, p', hrun, hstep, hleads⟩ := h p hp
  cases result with
  | ok a =>
    refine ⟨.ok a, p', tryCatch_of_ok hrun, ?_, hleads⟩
    rw [Copier.atomically, hstep]
    rfl
  | error e =>
    refine ⟨.error e, p, (tryCatch_of_error hrun).trans ?_, ?_, .refl hp⟩
    · obtain ⟨written, hwritten⟩ := hleads.output
      have hcut : p'.output.take p.output.size = p.output := hwritten ▸ take_append ..
      rw [bind_of_ok (rewind_eq hleads.inside hleads.forward)]
      show some (Except.error e, Place.mk p.position (p'.output.take p.output.size)) = _
      rw [hcut]
    · rw [Copier.atomically, hstep]
      rfl

/-! ## Reads, skips and copies -/

theorem mirrors_position :
    Mirrors block position (Copier.reading do return (← get).position) := by
  intro p hp
  refine ⟨.ok p.position, p, rfl, ?_, .refl hp⟩
  show EStateM.Result.ok (0 + p.position) _ = _
  rw [Nat.zero_add]
  rfl

theorem mirrors_remaining :
    Mirrors block (remaining block) (Copier.reading do return (← get).remaining) :=
  fun p hp => ⟨_, p, remaining_eq hp, rfl, .refl hp⟩

/-- **What is taken off the unread bytes is read.** -/
theorem Takes.mirrors {f : Bytes → Except Error (α × Nat)} (h : Takes block machine f) :
    Mirrors block machine (Copier.reading (.ofUnread f)) := by
  intro p hp
  have hrun := h.run hp
  cases hf : f (block.drop p.position) with
  | error e =>
    rw [taking_error hf] at hrun
    refine ⟨.error e, p, hrun, ?_, .refl hp⟩
    have herror : Decoder.ofUnread f (p.transfer block).input =
        .error e (p.transfer block).input := Decoder.ofUnread_error hf
    rw [Copier.reading, herror]
    rfl
  | ok taken =>
    obtain ⟨a, n⟩ := taken
    rw [taking_ok hf] at hrun
    refine ⟨.ok a, p.pass n, hrun, ?_, Place.leads_pass (h.inside hf) hp⟩
    have hok : Decoder.ofUnread f (p.transfer block).input =
        .ok a ((p.transfer block).input.advance n) := Decoder.ofUnread_ok hf
    rw [Copier.reading, hok, Place.ending, Place.transfer_pass]

theorem mirrors_put (bytes : Bytes) : Mirrors block (put bytes) (Copier.append bytes) :=
  fun p hp => ⟨.ok (), { p with output := p.output ++ bytes }, rfl, rfl, Nat.le_refl _, hp, bytes,
    rfl⟩

section
variable (hblock : block.length ≤ maxCount)

include hblock

theorem mirrors_skip (item : Item) (count : Nat) :
    Mirrors block (skip block item count) (Copier.reading (skipSpan (item.spans count))) := by
  intro p hp
  have hmeasure := measure_unread hblock item count hp
  have hskip := skipSpan_eq (item.spans count) (p.transfer block).input
  have hunread : (p.transfer block).input.unread = block.drop p.position := rfl
  rw [hunread] at hskip
  cases hspan : item.spans count (block.drop p.position) with
  | error e =>
    rw [hspan] at hmeasure hskip
    refine ⟨.error e, p, bind_of_error hmeasure, ?_, .refl hp⟩
    rw [Copier.reading, hskip]
    rfl
  | ok n =>
    rw [hspan] at hmeasure hskip
    have hn := item.inside_spans count _ n hspan
    have hleads := Place.leads_pass hn hp
    refine ⟨.ok (), p.pass n, ?_, ?_, hleads⟩
    · rw [skip, bind_of_ok hmeasure, advance_eq hblock hleads.inside]
    · rw [Copier.reading, hskip, Place.ending, Place.transfer_pass]

theorem mirrors_copy (item : Item) (count : Nat) :
    Mirrors block (copy block item count) (copySpan (item.spans count)) := by
  intro p hp
  have hmeasure := measure_unread hblock item count hp
  have hcopy := copySpan_eq (item.spans count) (p.transfer block)
  have hunread : (p.transfer block).input.unread = block.drop p.position := rfl
  rw [hunread] at hcopy
  cases hspan : item.spans count (block.drop p.position) with
  | error e =>
    rw [hspan] at hmeasure hcopy
    exact ⟨.error e, p, bind_of_error hmeasure, hcopy, .refl hp⟩
  | ok n =>
    rw [hspan] at hmeasure hcopy
    have hn := item.inside_spans count _ n hspan
    have hleads := Place.leads_copied hn hp
    refine ⟨.ok (), p.copied block n, ?_, ?_, hleads⟩
    · rw [copy, bind_of_ok hmeasure, bind_of_ok (unread_eq hp), slice_from_start hn, pure_bind]
      exact advance_eq hblock hleads.inside
    · rw [hcopy, Place.ending, Place.transfer_copied]
      rfl

theorem mirrors_copyNumber : Mirrors block (copyNumber block) Codec.copyNumber := by
  intro p hp
  have hcopy := Decoder.copyNumber_eq (p.transfer block)
  have hunread : (p.transfer block).input.unread = block.drop p.position := rfl
  rw [hunread] at hcopy
  cases hdecode : Varint.decode (block.drop p.position) with
  | error e =>
    rw [hdecode] at hcopy
    exact ⟨.error e, p, bind_of_error (peek_error hblock hp hdecode), hcopy, .refl hp⟩
  | ok found =>
    obtain ⟨n, length⟩ := found
    rw [hdecode] at hcopy
    have hn := Varint.extent_le (Varint.extent_of_decode hdecode)
    refine ⟨.ok n, p.copied block length, ?_, ?_, Place.leads_copied hn hp⟩
    · have hadvance := advance_take hblock
        (p := { p with output := p.output ++ (block.drop p.position).take length }) hp hn
      rw [copyNumber, bind_of_ok (peek_ok hblock hp hdecode)]
      exact bind_of_ok hadvance
    · rw [hcopy, Place.ending, Place.transfer_copied]
      rfl

theorem mirrors_raw (count : Nat) :
    Mirrors block (raw block count) (Copier.reading (takeSpan (.raw count))) := by
  have heq : takeSpan (.raw count) = .ofUnread (takeRaw count) := by
    refine congrArg Decoder.ofUnread (funext fun bytes => ?_)
    unfold Span.raw takeRaw
    split <;> rfl
  rw [heq]
  exact (takes_raw hblock count).mirrors

end

end Checked
end Folio.Codec
