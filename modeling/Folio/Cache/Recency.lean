import Folio.Record.Basic
import Folio.Table

/-!
The order in which cached objects were last used, as a list threaded through a table: each identity
knows its neighbours, so that any of them can be taken out or moved to the end without a search.
The head is the least recently used identity.
-/
namespace Folio.Cache

/-- The neighbours of one identity. -/
structure Link where
  prev : Option ObjectId
  next : Option ObjectId
deriving DecidableEq, Repr

/-- The recency order. -/
structure Recency where
  links : Table ObjectId Link := ∅
  head : Option ObjectId := none
  tail : Option ObjectId := none

namespace Recency

/-- The identity used next after `id`. -/
def next? (r : Recency) (id : ObjectId) : Option ObjectId := (r.links.get? id).bind (·.next)

/-- The identities from `cursor` on, at most `fuel` of them. -/
def walk (r : Recency) : (fuel : Nat) → (cursor : Option ObjectId) → List ObjectId
  | 0, _ => []
  | _ + 1, none => []
  | fuel + 1, some id => id :: walk r fuel (r.next? id)

/-- The identities from the least to the most recently used one. -/
def toList (r : Recency) : List ObjectId := r.walk r.links.size r.head

/-- Puts a new identity at the most recently used end. -/
def pushBack (r : Recency) (id : ObjectId) : Recency :=
  let link : Link := { prev := r.tail, next := none }
  match r.tail with
  | some last =>
    { r with
      links := (r.links.modify last ({ · with next := some id })).insert id link
      tail := some id }
  | none => { links := r.links.insert id link, head := some id, tail := some id }

/-- Takes an identity out; its neighbours become each other's. -/
def unlink (r : Recency) (id : ObjectId) : Recency :=
  match r.links.get? id with
  | none => r
  | some link =>
    let links := r.links.erase id
    let (links, head) := match link.prev with
      | some before => (links.modify before ({ · with next := link.next }), r.head)
      | none => (links, link.next)
    let (links, tail) := match link.next with
      | some after => (links.modify after ({ · with prev := link.prev }), r.tail)
      | none => (links, link.prev)
    { links, head, tail }

/-- Moves an identity to the most recently used end, if it is there. -/
def touch (r : Recency) (id : ObjectId) : Recency :=
  if r.tail = some id then r
  else if r.links.contains id then (r.unlink id).pushBack id
  else r

end Recency
end Folio.Cache
