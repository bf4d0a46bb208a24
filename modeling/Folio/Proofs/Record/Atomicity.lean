import Folio.Proofs.Codec.Atomicity
import Folio.Record.Copy

/-! # Records that are copied or not copied

A record is copied part by part, and any of them may fail after the ones before it were written:
the name, a text of a child, an entry behind any number of others, whatever count was declared.
But none of them takes anything back, neither from the input nor from the output
(`Copier.Forward`).  So the position and the length of the output that were noted at the start are
all it takes to undo them (`Copier.Forward.rollingBack_eq`).

**`Record.copies_atomic`**: a copy that fails, of a record or of its entries, leaves input and
output as they were, and a row of copies writes what the successful ones passed over.
-/
namespace Folio

open Codec

namespace Codec

variable {α β : Type}

/-! ## Parts only move forward -/

/-- **A copy takes nothing back.**  However it ends, it has passed over bytes that are there and
has written exactly those. -/
structure Copier.Forward (copy : Copier α) : Prop where
  ok {t t' : Transfer} {a : α} (h : copy t = .ok a t') : ∃ n ≤ t.input.remaining, t' = t.copied n
  error {t t' : Transfer} {e : Error} (h : copy t = .error e t') :
    ∃ n ≤ t.input.remaining, t' = t.copied n

@[simp] theorem Transfer.copied_zero (t : Transfer) : t.copied 0 = t := by
  have hinput : t.input.advance 0 = t.input := rfl
  rw [copied, hinput, List.take_zero, append_nil]

namespace Copier

variable {copy : Copier α} {more : α → Copier β}

theorem Verbatim.forward (h : copy.Verbatim) : copy.Forward where
  ok := h.copied
  error {t t' e} herror := ⟨0, Nat.zero_le _, by rw [h.traceless t e t' herror, t.copied_zero]⟩

theorem forward_pure (a : α) : Forward (pure a) where
  ok {t t' b} h := by
    cases h
    exact ⟨0, Nat.zero_le _, t.copied_zero.symm⟩
  error h := by cases h

/-- Forward and forward again. -/
theorem exists_copied {t t' t'' : Transfer} (h : ∃ n ≤ t.input.remaining, t' = t.copied n)
    (h' : ∃ n ≤ t'.input.remaining, t'' = t'.copied n) :
    ∃ n ≤ t.input.remaining, t'' = t.copied n := by
  obtain ⟨n, hn, rfl⟩ := h
  obtain ⟨m, hm, rfl⟩ := h'
  have hremaining : (t.copied n).input.remaining = t.input.remaining - n := rfl
  exact ⟨n + m, by omega, t.copied_copied n m⟩

/-- **A part that fails comes after parts that were copied.** -/
theorem Forward.bind (hcopy : copy.Forward) (hmore : ∀ a, (more a).Forward) :
    (copy >>= more).Forward where
  ok {t t' b} h := by
    cases hfirst : copy t with
    | ok a t₁ =>
      rw [bind_of_ok hfirst] at h
      exact exists_copied (hcopy.ok hfirst) ((hmore a).ok h)
    | error e t₁ =>
      rw [bind_of_error hfirst] at h
      cases h
  error {t t' e} h := by
    cases hfirst : copy t with
    | ok a t₁ =>
      rw [bind_of_ok hfirst] at h
      exact exists_copied (hcopy.ok hfirst) ((hmore a).error h)
    | error e₁ t₁ =>
      rw [bind_of_error hfirst] at h
      cases h
      exact hcopy.error hfirst

theorem Forward.within (hcopy : copy.Forward) : Forward (Codec.within copy) where
  ok h := hcopy.ok (within_eq_ok_iff.1 h)
  error h := by
    obtain ⟨e', herror, -⟩ := within_eq_error_iff.1 h
    exact hcopy.error herror

/-- **Any number of items is copied forward**, however many the data declares. -/
theorem Forward.times (hcopy : copy.Forward) (count : Nat) : Forward (Codec.times copy count) := by
  induction count with
  | zero => exact forward_pure []
  | succ count ih => exact hcopy.bind fun a => ih.bind fun others => forward_pure _

theorem forward_varints (count : Nat) : (copyVarints count).Forward :=
  (verbatim_span (Span.inside_varints count)).forward

theorem forward_blocks (count : Nat) : (copyBlocks count).Forward :=
  (verbatim_span (Span.inside_blocks count)).forward

theorem forward_raw (count : Nat) : (copyRaw count).Forward :=
  (verbatim_span (Span.inside_raw count)).forward

/-! ## Taking everything back -/

/-- Makes a copy and, should it fail, takes the input back to its old position in `block` and drops
what was written since.  All that is kept of the start is that position and the length of the
output. -/
def rollingBack (block : Bytes) (copy : Copier α) : Copier α := fun t =>
  let position := t.input.position
  let written := t.output.size
  match copy t with
  | .ok a t' => .ok a t'
  | .error e t' =>
    .error e
      { input := (Reader.ofBytes block).advance position, output := t'.output.take written }

/-- **What only moved forward is undone by going back.** -/
theorem Forward.rollingBack_eq (hcopy : copy.Forward) (block : Bytes) (position : Nat)
    (output : Array UInt8) :
    rollingBack block copy { input := (Reader.ofBytes block).advance position, output } =
      atomically copy { input := (Reader.ofBytes block).advance position, output } := by
  unfold rollingBack atomically
  cases hrun : copy { input := (Reader.ofBytes block).advance position, output } with
  | ok a t' => rfl
  | error e t' =>
    obtain ⟨n, -, rfl⟩ := hcopy.error hrun
    have hposition : ((Reader.ofBytes block).advance position).position = position :=
      Nat.zero_add position
    simp only [Transfer.copied, hposition, take_append]

theorem Forward.verbatim (hcopy : copy.Forward) : (atomically copy).Verbatim where
  copied h := by
    rw [atomically_eq_putBack, putBack_eq_ok_iff] at h
    exact hcopy.ok h
  traceless t e t' h := eq_of_atomically h

end Copier
end Codec

open Copier

/-! ## The parts of a record -/

theorem Entry.forward_copy : Entry.copy.Forward :=
  (forward_varints 1).bind fun _ => (forward_blocks 1).bind fun _ => (forward_raw 1).bind fun _ =>
    forward_varints 1

namespace Record

theorem forward_entryList : copyEntryList.Forward :=
  verbatim_number.forward.within.bind fun count =>
    (Entry.forward_copy.within.times count).bind fun _ => forward_pure count

theorem forward_afterId : copyAfterId.Forward :=
  (forward_blocks 1).bind fun _ => verbatim_number.forward.bind fun children =>
    (forward_blocks children).bind fun _ => (forward_varints 1).bind fun _ =>
      forward_entryList.bind fun _ => forward_pure ()

/-- A record in parts, of which any may fail. -/
def copyParts : Copier Unit := do
  copyVarints 1
  within copyAfterId

theorem forward_parts : copyParts.Forward :=
  (forward_varints 1).bind fun _ => forward_afterId.within

/-- **A record is copied or not copied.**  Whatever the data, the position and the output are, a
copy of a record or of its entries that succeeds appends the bytes that it passes over, and one
that fails, at whichever part and with whichever error, leaves both sides as they were, as if the
parts were undone.  So after any number of copies, from wherever they are made and with any of them
failing, the output is what it was, followed by what the successful ones passed over. -/
theorem copies_atomic :
    copy.Verbatim ∧ copyEntries.Verbatim ∧
    (∀ (block : Bytes) (position : Nat) (output : Array UInt8),
      let t : Transfer := { input := (Reader.ofBytes block).advance position, output }
      copy t = rollingBack block copyParts t ∧
        copyEntries t = rollingBack block copyEntryList t) ∧
    ∀ (aims : List (Reader → Reader)) (t : Transfer),
      (copy.calls aims t).2.output = t.output ++ (copy.calls aims t).1.flatten := by
  have hcopy : copy.Verbatim := forward_parts.verbatim
  exact ⟨hcopy, forward_entryList.verbatim, fun block position output =>
    ⟨(forward_parts.rollingBack_eq block position output).symm,
      (forward_entryList.rollingBack_eq block position output).symm⟩, hcopy.calls_output⟩

/-- Of three entries the second one is cut off after its identity, when the first one has been
written. -/
example :
    let t : Transfer := { input := Reader.ofBytes [3, 1, 0, 9, 4, 7], output := #[42] }
    copyEntries t = .error (.truncated 1 0) t := rfl

end Record
end Folio
