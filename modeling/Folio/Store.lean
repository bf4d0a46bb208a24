import Folio.Collection
import Folio.Table

/-!
The store of encoded collections. Records are filed under identities, and each name stands for the
identity it was last written with; a collection that is written gives up the names it had before.
-/
namespace Folio

open Cache (FlushHook)

structure Store where
  records : Table ObjectId Bytes := ∅
  names : Table String ObjectId := ∅
  /-- Refuses to write collections. -/
  readOnly : Bool := false

namespace Store

/-- The number of records. -/
def size (s : Store) : Nat := s.records.size

def contains (s : Store) (id : ObjectId) : Bool := s.records.contains id

/-- The bytes filed under an identity. -/
def raw? (s : Store) (id : ObjectId) : Option Bytes := s.records.get? id

def findByName? (s : Store) (name : String) : Option ObjectId := s.names.get? name

/-- Files bytes under an identity and a name as they are. -/
def putRaw (s : Store) (id : ObjectId) (name : String) (block : Bytes) : Store :=
  { s with names := s.names.insert name id, records := s.records.insert id block }

/-- Writes the present state of a collection. -/
def write (s : Store) (c : Collection) : Except Cache.Error Store :=
  let record := c.content
  if s.readOnly then .error (.flush record.id "collection store is read-only")
  else
    let names := s.names.filter fun _ id => id ≠ record.id
    .ok { s with
      names := names.insert record.name record.id
      records := s.records.insert record.id record.encode }

/-- Reads the collection filed under an identity; `none` if there is none. -/
def load (s : Store) (id : ObjectId) (timeout : Option Duration) :
    Except Codec.Error (Option Collection) :=
  match s.raw? id with
  | none => .ok none
  | some block => (Collection.ofBytes block timeout).map some

/-- A cache over the store writes back to it. -/
def flushHook : FlushHook Store Record := fun c s =>
  match s.write c with
  | .ok s' => (.ok (), c, s')
  | .error e => (.error e, c, s)

end Store
end Folio
