import Folio.Transaction.Basic

/-!
The registry that begins transactions and knows which of them are still open.
-/
namespace Folio

open Transaction (After Error)

structure Registry where
  /-- The identity of the next transaction. -/
  nextId : UInt64 := 1
  /-- The identities of the transactions begun and not yet closed. -/
  active : List UInt64 := []
  shutDown : Bool := false
deriving DecidableEq, Repr

namespace Registry

variable {τ S : Type}

/-- Begins a transaction. -/
def start (r : Registry) : Except Error (Transaction τ × Registry) :=
  if r.shutDown then .error .shutdown
  else
    .ok ({ id := r.nextId, registered := true },
      { r with nextId := r.nextId + 1, active := r.active.insert r.nextId })

/-- Begins no more transactions; tells how many are open. -/
def shutdown (r : Registry) : Nat × Registry := (r.active.length, { r with shutDown := true })

def isActive (r : Registry) (id : UInt64) : Bool := id ∈ r.active

/-- The open transactions in ascending order. -/
def activeIds (r : Registry) : List UInt64 := r.active.mergeSort fun a b => a ≤ b

/-- Strikes a transaction out. -/
def strike (r : Registry) (id : UInt64) : Registry := { r with active := r.active.filter (· ≠ id) }

/-- The registry after a transaction went from one state to another: once it is no longer
registered it is struck out. -/
def follow (r : Registry) (before after : Transaction τ) : Registry :=
  if before.registered && !after.registered then r.strike before.id else r

end Registry
end Folio
