import Folio.Lock.Basic

/-!
The states of a transaction and what a transaction can refuse.
-/
namespace Folio.Transaction

/-- A transaction is started, then committed or aborted, then closed for good. -/
inductive State where
  | started | committed | aborted | closed
deriving DecidableEq, Repr

namespace State

def name : State → String
  | started => "STARTED"
  | committed => "COMMITTED"
  | aborted => "ABORTED"
  | closed => "CLOSED"

/-- The state's name in the description of a value. -/
def label : State → String
  | started => "Started"
  | committed => "Committed"
  | aborted => "Aborted"
  | closed => "Closed"

end State

inductive Error where
  /-- The operation is not possible in the transaction's state. -/
  | invalidState (id : UInt64) (state : State) (operation : String)
  | lock (error : Lock.Error)
  /-- No transactions are begun any more. -/
  | shutdown
deriving DecidableEq, Repr

def Error.message : Error → String
  | invalidState id state operation =>
    s!"transaction {id} cannot {operation} in state {state.name}"
  | lock error => "lock error: " ++ error.message
  | shutdown => "transaction manager is shut down"

end Folio.Transaction
