import Folio.Record.Decode

/-!
Copying records and entries byte for byte, without evaluating more than the counts. A copy of a
record or of its entries is all or nothing, so that a damaged record can be left out of a copy.
-/
namespace Folio

open Codec

/-- Copies one entry. -/
def Entry.copy : Copier Unit := do
  copyVarints 1
  copyBlocks 1
  copyRaw 1
  copyVarints 1

namespace Record

/-- Copies the counted entries and tells how many there were. -/
def copyEntryList : Copier Nat := do
  let count ← within copyNumber
  let _ ← times (within Entry.copy) count
  return count

/-- What follows the identity in a record. -/
def copyAfterId : Copier Unit := do
  copyBlocks 1
  let children ← copyNumber
  copyBlocks children
  copyVarints 1
  let _ ← copyEntryList

/-- Copies the counted entries, or nothing. -/
def copyEntries : Copier Nat := Copier.atomically copyEntryList

/-- Copies a whole record, or nothing. -/
def copy : Copier Unit := Copier.atomically do
  copyVarints 1
  within copyAfterId

end Record
end Folio
