import Folio.Codec.Counted
import Folio.Record.Basic

/-!
Reading records and entries back. The end of the data is reported as such only where a record could
have begun; a record that has begun and runs out of bytes is truncated.
-/
namespace Folio

open Codec

namespace Entry

def decode : Decoder Entry := do
  let id ← readU64
  let name ← readText
  let type ← readByte
  let lastModified ← readU64
  return { id, name, type, lastModified }

/-- Advances over one entry. -/
def skip : Decoder Unit := do
  skipVarints 1
  skipBlocks 1
  skipRaw 1
  skipVarints 1

end Entry

namespace Header

/-- What follows the identity in a header. -/
def decodeAfterId (id : ObjectId) : Decoder Header := do
  let name ← readText
  let children ← readCounted readText
  let permissions ← readU32
  return { id, name, children, permissions }

/-- Reads a header and stops at the count of the entries. -/
def decode : Decoder Header := do
  let id ← readU64
  within (decodeAfterId id)

end Header

namespace Record

def decode : Decoder Record := do
  let header ← Header.decode
  let entries ← within (readCounted Entry.decode)
  return { header with entries }

/-- Reads a record in the legacy form. -/
def decodeLegacy : Decoder Record := do
  let header ← Header.decode
  let entries ← readToEnd Entry.decode
  return { header with entries }

/-- The record at the head of a block; what follows it is not looked at. -/
def ofBytes (block : Bytes) : Except Error Record :=
  match decode (Reader.ofBytes block) with
  | .ok record _ => .ok record
  | .error e _ => .error e

/-- The counted form of a record that is given in the legacy form. -/
def upgrade (block : Bytes) : Except Error Bytes :=
  match decodeLegacy (Reader.ofBytes block) with
  | .ok record _ => .ok record.encode
  | .error e _ => .error e

/-- Advances over the counted entries and tells how many there were. -/
def skipEntries : Decoder Nat := do
  let list ← within CountedList.start
  let list ← list.drain Entry.skip
  match list.finish with
  | .ok () => return list.consumed
  | .error e => throw e

end Record
end Folio
