import Folio.Proofs.Codec.Programs
import Folio.Proofs.Record.Calls
import Folio.Proofs.Record.Upgrade

/-! # Records are read without a fault

What is done with a record is a program over the calls of the reader: an entry, a header and a
record that are decoded, entries that are skipped, and a record that is copied.  Each of these
programs is, without a machine, what `Folio.Record` says it is.  So **`reader_never_faults`** speaks
of them as of every other use of the reader: whatever the data are, no sum of positions and lengths
is too large, no difference is below zero, no slice lies outside of the data, and the cursor is
never behind the end.
-/
namespace Folio

open Codec Program

namespace Programs

variable {β : Type}

/-! ## Reading and skipping -/

def entry : Program Entry := do
  let id ← u64
  let name ← call .text
  let type ← call .byte
  let lastModified ← u64
  return { id, name, type, lastModified }

def skipEntry : Program Unit := do
  call (.skip .number 1)
  call (.skip .block 1)
  call (.skipRaw 1)
  call (.skip .number 1)

def headerAfterId (id : ObjectId) : Program Header := do
  let name ← call .text
  let children ← counted (call .text)
  let permissions ← u32
  return { id, name, children, permissions }

def header : Program Header := do
  let id ← u64
  within (headerAfterId id)

def record : Program Record := do
  let header ← header
  let entries ← within (counted entry)
  return { header with entries }

/-- A record in the legacy form, whose entries run to the end of the data. -/
def legacyRecord : Program Record := do
  let header ← header
  let rounds ← call .remaining
  let entries ← toEnd entry rounds
  return { header with entries }

def skipEntries : Program Nat := do
  let list ← within start
  let list ← drain skipEntry (list.declared + 1) list
  match list.finish with
  | .ok () => return list.consumed
  | .error e => fail e

/-! ## Copying -/

def copyEntry : Program Unit := do
  call (.copy .number 1)
  call (.copy .block 1)
  call (.copyRaw 1)
  call (.copy .number 1)

/-- Copies the count, and then entry after entry until so many are counted. -/
def copyEntryList : Program Nat := do
  let count ← within (call .copyNumber)
  if h : count ≤ maxCount then do
    let list ← drain copyEntry (count + 1) (.ofCount count h)
    return list.consumed
  else fail (.overflow 64)

def copyAfterId : Program Unit := do
  call (.copy .block 1)
  let children ← call .copyNumber
  call (.copy .block children)
  call (.copy .number 1)
  let _ ← copyEntryList

def copyEntries : Program Nat := atomically copyEntryList

def copyRecord : Program Unit := atomically do
  call (.copy .number 1)
  within copyAfterId

/-! ## What the programs are without a machine -/

theorem runs_entry : entry.Runs Entry.decode :=
  runs_u64.bind fun _ => runs_text.bind fun _ => runs_byte.bind fun _ => runs_u64.map _

theorem runs_skipEntry : skipEntry.Runs Entry.skip :=
  Runs.bind rfl fun _ => Runs.bind rfl fun _ => Runs.bind rfl fun _ => rfl

theorem runs_headerAfterId (id : ObjectId) : (headerAfterId id).Runs (Header.decodeAfterId id) :=
  runs_text.bind fun _ => runs_text.counted.bind fun _ => runs_u32.map _

theorem runs_header : header.Runs Header.decode :=
  runs_u64.bind fun id => (runs_headerAfterId id).within

theorem runs_record : record.Runs Record.decode :=
  runs_header.bind fun _ => runs_entry.counted.within.map _

theorem runs_legacyRecord : legacyRecord.Runs Record.decodeLegacy := by
  refine runs_header.bind fun header => funext fun t => ?_
  have hentries : (toEnd entry t.input.remaining).step t =
      Copier.reading (readToEnd Entry.decode) t :=
    step_toEnd runs_entry (fun _ _ _ => Entry.spends_decode.lt (by decide)) (Nat.le_refl _)
  rw [Copier.reading_bind]
  exact bind_congr_of_eq hentries

theorem runs_skipEntries : skipEntries.Runs Record.skipEntries := by
  unfold skipEntries Record.skipEntries
  refine runs_start.within_of_map.bind_of_map fun list => ?_
  have hrounds : list.declared - list.consumed < list.declared + 1 :=
    Nat.lt_succ_of_le (Nat.sub_le ..)
  refine (runs_skipEntry.drain list hrounds).bind_of_map fun drained => ?_
  show Program.Runs (match drained.finish with
    | .ok () => return drained.consumed
    | .error e => fail e) (match drained.finish with
    | .ok () => return drained.consumed
    | .error e => throw e)
  cases drained.finish with
  | ok _ => exact runs_pure _
  | error e => rfl

theorem step_copyEntry : copyEntry.step = Entry.copy := rfl

theorem step_copyEntryList : copyEntryList.step = Record.copyEntryList := by
  funext t
  unfold copyEntryList Record.copyEntryList
  rw [step_bind, step_within]
  cases hnumber : Codec.copyNumber t with
  | error e t' =>
    have herror : Codec.within Codec.copyNumber t = .error e.within t' :=
      within_eq_error_iff.2 ⟨e, hnumber, rfl⟩
    exact (bind_of_error herror).trans (bind_of_error herror).symm
  | ok n t' =>
    have hok : Codec.within Codec.copyNumber t = .ok n t' := within_eq_ok_iff.2 hnumber
    have hfits : n ≤ maxCount := by
      obtain ⟨code, -, -, hlt, -⟩ := copyNumber_eq_ok_iff.1 hnumber
      exact Nat.le_sub_one_of_lt hlt
    refine (bind_of_ok hok).trans (Eq.trans ?_ (bind_of_ok hok).symm)
    rw [dif_pos hfits, step_bind, step_drain copyEntry (.ofCount n hfits) (Nat.lt_succ_self n),
      step_copyEntry, bind_assoc]
    rfl

theorem step_copyEntries : copyEntries.step = Record.copyEntries :=
  congrArg Copier.atomically step_copyEntryList

theorem step_copyAfterId : copyAfterId.step = Record.copyAfterId := by
  unfold copyAfterId Record.copyAfterId
  simp only [step_bind, step_copyEntryList]
  rfl

theorem step_copyRecord : copyRecord.step = Record.copy := by
  refine congrArg Copier.atomically ?_
  rw [step_bind, step_within, step_copyAfterId]
  rfl

end Programs

/-! ## Every program -/

open Programs

/-- **The reader never faults.**  Whatever the data are and whatever is called, with whatever
counts, a program has a result on a machine, it is the one that it has without a machine, and the
cursor has only moved forward and is not behind the end.  Reads of every kind, counted lists and all
that is done with records are such programs. -/
theorem reader_never_faults (block : Bytes) (hblock : block.length ≤ maxCount) :
    (∀ {α : Type} (program : Program α) (p : Place), p.position ≤ block.length →
      ∃ result p', program.machine block p = some (result, p') ∧
        program.step (p.transfer block) = p'.ending block result ∧
        p.position ≤ p'.position ∧ p'.position ≤ block.length) ∧
    (∀ kind, (value kind).Runs kind.read) ∧
    (∀ {α : Type} (item : Program α) (d : Decoder α), item.Runs d →
      (counted item).Runs (readCounted d) ∧
      ∀ list, (Prod.map id Listing.toCountedList <$> next list item).Runs
        (list.toCountedList.next d)) ∧
    (Listing.toCountedList <$> start).Runs CountedList.start ∧
    (∀ list perItem, (Listing.toCountedList <$> skipRest list perItem).Runs
      (list.toCountedList.skipRest perItem)) ∧
    entry.Runs Entry.decode ∧ header.Runs Header.decode ∧ record.Runs Record.decode ∧
    legacyRecord.Runs Record.decodeLegacy ∧ skipEntries.Runs Record.skipEntries ∧
    copyEntries.step = Record.copyEntries ∧ copyRecord.step = Record.copy := by
  refine ⟨fun program p hp => ?_, runs_value, fun item d h => ⟨h.counted, h.next⟩, runs_start,
    runs_skipRest, runs_entry, runs_header, runs_record, runs_legacyRecord, runs_skipEntries,
    step_copyEntries, step_copyRecord⟩
  obtain ⟨result, p', hrun, hstep, hleads⟩ := program.mirrors hblock p hp
  exact ⟨result, p', hrun, hstep, hleads.forward, hleads.inside⟩

/-- A record that announces as many children as can be counted, and ends there, is copied: nothing
faults, and the copy is taken back. -/
theorem reader_never_faults_taken_back :
    ([1, 0, 255, 255, 255, 255, 255, 255, 255, 255, 255, 1] : Bytes).length ≤ maxCount ∧
    ∃ result p', copyRecord.machine [1, 0, 255, 255, 255, 255, 255, 255, 255, 255, 255, 1]
        { position := 0, output := #[7] } = some (result, p') ∧
      p'.position ≤ 12 ∧ result = .error (.truncated 1 0) ∧
      p' = { position := 0, output := #[7] } := by
  obtain ⟨result, p', hrun, -, -, hinside⟩ :=
    (reader_never_faults [1, 0, 255, 255, 255, 255, 255, 255, 255, 255, 255, 1] (by decide)).1
      copyRecord { position := 0, output := #[7] } (by decide)
  have hback : copyRecord.machine [1, 0, 255, 255, 255, 255, 255, 255, 255, 255, 255, 1]
      { position := 0, output := #[7] } =
        some (.error (.truncated 1 0), { position := 0, output := #[7] }) := rfl
  cases hrun.symm.trans hback
  exact ⟨by decide, _, _, hrun, hinside, rfl, rfl⟩

end Folio
