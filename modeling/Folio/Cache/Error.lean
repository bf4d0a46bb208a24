import Folio.Record.Basic

/-!
What a cache can refuse.
-/
namespace Folio.Cache

inductive Error where
  /-- The cache is full, nothing could be evicted and it could not grow. -/
  | capacityExhausted (cache : String) (capacity length : Nat)
  /-- The shared budget cannot cover a capacity. -/
  | budgetExceeded (requested available : Nat)
  /-- An object could not be written back. -/
  | flush (id : ObjectId) (reason : String)
deriving DecidableEq, Repr

def Error.message : Error → String
  | capacityExhausted cache capacity length =>
    s!"cache {cache} is full ({length}/{capacity}) and no entry could be evicted"
  | budgetExceeded requested available =>
    s!"cache budget exceeded: requested {requested}, available {available}"
  | flush id reason => s!"failed to flush object {id}: {reason}"

end Folio.Cache
