import Folio.Codec.Reader

/-!
The stored form of a collection of documents: its identity, name, child names and permissions, and
an entry for each document. A record is written with the number of its entries in front of them;
the legacy form leaves that number out and its entries run to the end of the block.
-/
namespace Folio

open Codec

/-- The identity of a collection or a document. -/
abbrev ObjectId := UInt64

/-- One document of a collection. -/
structure Entry where
  id : ObjectId
  name : String
  /-- What kind of document it is; 0 is markup and 1 is binary. -/
  type : UInt8
  lastModified : UInt64
deriving DecidableEq, Repr

/-- Everything in a record before the entries. -/
structure Header where
  id : ObjectId
  name : String
  children : List String := []
  permissions : UInt32 := 0o755
deriving DecidableEq, Repr

/-- The stored state of one collection. -/
structure Record extends Header where
  entries : List Entry := []
deriving DecidableEq, Repr

def Entry.encode (entry : Entry) : Bytes :=
  Varint.encode entry.id.toNat ++ encodeText entry.name ++ [entry.type]
    ++ Varint.encode entry.lastModified.toNat

def Header.encode (header : Header) : Bytes :=
  Varint.encode header.id.toNat ++ encodeText header.name
    ++ Varint.encode header.children.length ++ header.children.flatMap encodeText
    ++ Varint.encode header.permissions.toNat

namespace Record

/-- The counted form. -/
def encode (record : Record) : Bytes :=
  record.toHeader.encode ++ Varint.encode record.entries.length
    ++ record.entries.flatMap Entry.encode

/-- The legacy form. -/
def encodeLegacy (record : Record) : Bytes :=
  record.toHeader.encode ++ record.entries.flatMap Entry.encode

end Record
end Folio
