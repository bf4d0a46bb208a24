import Mathlib.Logic.Relation
import Folio.Proofs.Transaction.Operation

/-! # The life of a transaction

Whatever is asked of a transaction, in whatever order and however often, it is settled once it is
given up: **`Course.settles`**.  Every listener that it accepted has been told one and the same
outcome, once and in turn, and every ticket that was entered was either struck out or given back.

`Held` keeps the book of the tickets from what was done alone, without looking at the ledger: a
ticket is struck out where it was entered last, and whenever tickets are given back these are all
that are out, the last one first.  The invariant is `Chronicle`: as long as a transaction is started
its ledger is what the book says, and afterwards what it did is a book and its finale.
-/
namespace Folio.Transaction

variable {τ S : Type}

/-! ## What was done -/

/-- The listeners that were accepted. -/
def joined (trace : List (Deed τ)) : List τ :=
  trace.filterMap fun
    | .joined listener => some listener
    | _ => none

/-- What the listeners were told. -/
def told (trace : List (Deed τ)) : List (τ × Outcome × UInt64) :=
  trace.filterMap fun
    | .told listener outcome id => some (listener, outcome, id)
    | _ => none

/-- The tickets that came to this. -/
def tickets (fate : Fate) (trace : List (Deed τ)) : List Ticket :=
  trace.filterMap fun
    | .ticket other ticket => if other = fate then some ticket else none
    | _ => none

/-- The tickets that are out after all this, in the order in which they were entered.  Nobody has
been told an outcome. -/
inductive Held : List (Deed τ) → List Ticket → Prop
  | nothing : Held [] []
  | joined {trace : List (Deed τ)} {held : List Ticket} (before : Held trace held) (listener : τ) :
      Held (trace ++ [.joined listener]) held
  | entered {trace : List (Deed τ)} {held : List Ticket} (before : Held trace held)
      (ticket : Ticket) : Held (trace ++ [.ticket .entered ticket]) (held ++ [ticket])
  | struck {trace : List (Deed τ)} {front back : List Ticket} {ticket : Ticket}
      (before : Held trace (front ++ ticket :: back)) (latest : ticket ∉ back) :
      Held (trace ++ [.ticket .struck ticket]) (front ++ back)
  | emptied {trace : List (Deed τ)} {held : List Ticket} (before : Held trace held) :
      Held (trace ++ givingBack held) []

section
variable {trace : List (Deed τ)} {held : List Ticket}

theorem joined_append (trace later : List (Deed τ)) :
    joined (trace ++ later) = joined trace ++ joined later :=
  List.filterMap_append

theorem told_append (trace later : List (Deed τ)) :
    told (trace ++ later) = told trace ++ told later :=
  List.filterMap_append

theorem tickets_append (fate : Fate) (trace later : List (Deed τ)) :
    tickets fate (trace ++ later) = tickets fate trace ++ tickets fate later :=
  List.filterMap_append

theorem joined_givingBack (held : List Ticket) : joined (τ := τ) (givingBack held) = [] := by
  simp [joined, givingBack]

theorem joined_finale (listeners : List τ) (outcome : Outcome) (id : UInt64)
    (held : List Ticket) : joined (finale listeners outcome id held) = [] := by
  rw [finale, joined_append, joined_givingBack]
  simp [joined]

theorem told_givingBack (held : List Ticket) : told (τ := τ) (givingBack held) = [] := by
  simp [told, givingBack]

theorem told_finale (listeners : List τ) (outcome : Outcome) (id : UInt64) (held : List Ticket) :
    told (finale listeners outcome id held) = listeners.map (·, outcome, id) := by
  rw [finale, told_append, told_givingBack, List.append_nil]
  simp [told, List.filterMap_map]

@[simp] theorem tickets_joined (fate : Fate) (listener : τ) :
    tickets fate [.joined listener] = [] :=
  rfl

@[simp] theorem tickets_ticket (fate other : Fate) (ticket : Ticket) :
    tickets (τ := τ) fate [.ticket other ticket] = if other = fate then [ticket] else [] := by
  unfold tickets
  split <;> simp [*]

@[simp] theorem tickets_givingBack (fate : Fate) (held : List Ticket) :
    tickets (τ := τ) fate (givingBack held) = if .released = fate then held.reverse else [] := by
  unfold tickets givingBack
  split <;> simp [*]

theorem tickets_finale (fate : Fate) (listeners : List τ) (outcome : Outcome) (id : UInt64)
    (held : List Ticket) :
    tickets fate (finale listeners outcome id held) =
      if .released = fate then held.reverse else [] := by
  rw [finale, tickets_append, tickets_givingBack]
  simp [tickets]

/-- Nobody is told an outcome before the finale. -/
theorem Held.told_eq (hb : Held trace held) : told trace = [] := by
  induction hb with
  | nothing => rfl
  | joined before listener ih => rw [told_append, ih]; rfl
  | entered before ticket ih => rw [told_append, ih]; rfl
  | struck before latest ih => rw [told_append, ih]; rfl
  | emptied before ih => rw [told_append, ih, told_givingBack]; rfl

/-- **Every ticket that was entered** was struck out, was given back or is still out. -/
theorem Held.conserves (hb : Held trace held) :
    (tickets .entered trace).Perm (tickets .struck trace ++ tickets .released trace ++ held) := by
  rw [List.perm_iff_count]
  intro other
  induction hb with
  | nothing => rfl
  | joined before listener ih =>
    simpa [tickets_append] using ih
  | entered before ticket ih =>
    simp only [List.count_append] at ih
    simp only [tickets_append, tickets_ticket, List.count_append, reduceCtorEq, reduceIte,
      List.count_nil]
    omega
  | struck before latest ih =>
    simp only [List.count_append, List.count_cons] at ih
    simp only [tickets_append, tickets_ticket, List.count_append, reduceCtorEq, reduceIte,
      List.count_nil, List.count_singleton]
    omega
  | emptied before ih =>
    simp only [List.count_append] at ih
    simp only [tickets_append, tickets_givingBack, List.count_append, reduceCtorEq, reduceIte,
      List.count_nil, List.count_reverse]
    omega

/-- Once the finale has given back what was still out, nothing is. -/
theorem Held.conserves_finale (hb : Held trace held) (listeners : List τ) (outcome : Outcome)
    (id : UInt64) :
    (tickets .entered (trace ++ finale listeners outcome id held)).Perm
      (tickets .struck (trace ++ finale listeners outcome id held) ++
        tickets .released (trace ++ finale listeners outcome id held)) := by
  simp only [tickets_append, tickets_finale, reduceCtorEq, reduceIte, List.append_nil]
  rw [← List.append_assoc]
  exact hb.conserves.trans (held.reverse_perm.symm.append_left _)

end

/-! ## States -/

/-- One step in the life of a transaction. -/
inductive State.Next : State → State → Prop
  | commit : Next .started .committed
  | abort : Next .started .aborted
  | closeCommitted : Next .committed .closed
  | closeAborted : Next .aborted .closed

section
variable {t t' : Transaction τ} {op : Operation τ} {answer : Except Error Unit}
  {deeds trace : List (Deed τ)}

open Relation (ReflTransGen)

/-- **A transaction never goes back.** -/
theorem Does.advances (hd : Does t op answer t' deeds) :
    ReflTransGen State.Next t.state t'.state := by
  cases hd with
  | refused | registered | acquired | struck | joined | emptied | gone => exact .refl
  | committed started =>
    rw [started]
    exact .single .commit
  | aborted started =>
    rw [started]
    exact .single .abort
  | cut started =>
    rw [started]
    exact .tail (.single .abort) .closeAborted
  | closed finished =>
    rcases finished with hcommitted | haborted
    · rw [hcommitted]
      exact .single .closeCommitted
    · rw [haborted]
      exact .single .closeAborted

/-- A transaction that is given up is closed. -/
theorem Does.dropped (hd : Does t (.leave .drop) answer t' deeds) : t'.state = .closed := by
  cases hd with
  | refused lives => exact absurd rfl lives
  | cut | closed => rfl
  | gone finished => exact finished

/-- Closing a transaction that has not finished is aborting it, and closing it then. -/
theorem close_started [LockSpace S] (hstarted : t.state = .started) (locks : S) :
    t.close locks = (do
      let aborted ← t.abort locks
      let closed ← aborted.transaction.close aborted.locks
      return { closed with events := aborted.events ++ closed.events }) := by
  have haborted : (t.conclude .abort locks).transaction.state = .aborted := rfl
  rw [abort_eq, if_pos hstarted]
  simp only [close, hstarted, haborted, bind, Except.bind, pure, Except.pure, List.append_nil]

theorem commit_started [LockSpace S] (hstarted : t.state = .started) (locks : S) :
    ∃ after, t.commit locks = .ok after ∧ after.transaction.state = .committed ∧
      after.events.map Event.deed = finale t.listeners .commit t.id t.ledger :=
  ⟨_, by rw [commit_eq, if_pos hstarted], rfl, deeds_conclude t .commit locks⟩

theorem abort_started [LockSpace S] (hstarted : t.state = .started) (locks : S) :
    ∃ after, t.abort locks = .ok after ∧ after.transaction.state = .aborted ∧
      after.events.map Event.deed = finale t.listeners .abort t.id t.ledger :=
  ⟨_, by rw [abort_eq, if_pos hstarted], rfl, deeds_conclude t .abort locks⟩

/-! ## The whole life -/

/-- **What a transaction has done so far.**  A started one has its book; one that has finished has
told its listeners and given its locks back, and does nothing any more. -/
inductive Chronicle (t : Transaction τ) (trace : List (Deed τ)) : Prop
  | running (started : t.state = .started) (book : Held trace t.ledger)
      (listening : joined trace = t.listeners)
  | ended (finished : t.state ≠ .started) (empty : t.ledger = []) (early : List (Deed τ))
      (held : List Ticket) (outcome : Outcome) (book : Held early held)
      (done : trace = early ++ finale (joined early) outcome t.id held)

/-- A started transaction that finishes has done its book and its finale. -/
theorem Chronicle.finish (hc : Chronicle t trace) (hstarted : t.state = .started) {state : State}
    (hstate : state ≠ .started) {listeners : List τ} {registered : Bool} (outcome : Outcome) :
    Chronicle { id := t.id, state, listeners, registered }
      (trace ++ finale t.listeners outcome t.id t.ledger) := by
  cases hc with
  | running started book listening =>
    exact .ended hstate rfl trace t.ledger outcome book (by rw [listening])
  | ended finished => exact absurd hstarted finished

theorem Chronicle.enter (hc : Chronicle t trace) (hstarted : t.state = .started)
    (ticket : Ticket) : Chronicle { t with ledger := t.ledger ++ [ticket] }
      (trace ++ [.ticket .entered ticket]) := by
  cases hc with
  | running started book listening =>
    refine .running started (book.entered ticket) ?_
    rw [joined_append, listening]
    exact List.append_nil _
  | ended finished => exact absurd hstarted finished

/-- **One operation more.** -/
theorem Chronicle.step (hc : Chronicle t trace) (hd : Does t op answer t' deeds) :
    Chronicle t' (trace ++ deeds) := by
  cases hd with
  | refused lives e =>
    rw [List.append_nil]
    exact hc
  | registered started ticket => exact hc.enter started ticket
  | acquired started ticket => exact hc.enter started ticket
  | struck held latest =>
    cases hc with
    | running started book listening =>
      refine .running started (Held.struck (held ▸ book) latest) ?_
      rw [joined_append, listening]
      exact List.append_nil _
    | ended finished empty =>
      -- nothing is left to be struck out
      rw [empty] at held
      exact absurd held.symm (List.append_ne_nil_of_right_ne_nil _ (List.cons_ne_nil _ _))
  | joined started listener =>
    cases hc with
    | running _ book listening =>
      refine .running started (book.joined listener) ?_
      rw [joined_append, listening]
      rfl
    | ended finished => exact absurd started finished
  | emptied =>
    cases hc with
    | running started book listening =>
      refine .running started book.emptied ?_
      rw [joined_append, joined_givingBack, List.append_nil]
      exact listening
    | ended finished empty early held outcome book done =>
      rw [empty]
      exact .ended finished rfl early held outcome book ((List.append_nil _).trans done)
  | committed started => exact hc.finish started (by decide) .commit
  | aborted started => exact hc.finish started (by decide) .abort
  | cut started => exact hc.finish started (by simp [Transaction.closed]) .abort
  | closed finished =>
    rw [List.append_nil]
    cases hc with
    | running started =>
      rw [started] at finished
      simp at finished
    | ended _ empty early held outcome book done =>
      exact .ended (by simp [Transaction.closed]) empty early held outcome book done
  | gone finished =>
    rw [List.append_nil]
    exact hc

/-- What a transaction that has finished has done. -/
theorem Chronicle.settled (hc : Chronicle t trace) (hfinished : t.state ≠ .started) :
    ∃ early held outcome, Held early held ∧
      trace = early ++ finale (joined early) outcome t.id held := by
  cases hc with
  | running started => exact absurd started hfinished
  | ended _ _ early held outcome book done => exact ⟨early, held, outcome, book, done⟩

end

/-- **What a transaction can have become and have done.**  It begins without tickets and listeners,
in a registry or not.  Between two calls everybody else may do with the locks what they like. -/
inductive Course (S : Type) [LockSpace S] : Transaction τ → List (Deed τ) → Prop
  | begun (id : UInt64) (registered : Bool) : Course S { id, registered } []
  | call {t : Transaction τ} {trace : List (Deed τ)} (before : Course S t trace) (locks : S)
      (op : Operation τ) (alive : op ≠ .leave .drop) {reply : Reply S τ}
      (performed : t.perform locks op = some reply) :
      Course S reply.transaction (trace ++ reply.deeds)

section
variable [LockSpace S] {t : Transaction τ} {trace : List (Deed τ)}

open Relation (ReflTransGen)

theorem Course.chronicle (hc : Course S t trace) : Chronicle t trace := by
  induction hc with
  | begun id registered => exact .running rfl .nothing rfl
  | call before locks op alive performed ih => exact ih.step (does_of_perform performed)

/-- **How a transaction is settled.**  Take any transaction, whatever has been asked of it, and give
it up.  All in all it has kept its book, then told every listener that it accepted the same outcome,
in the order in which they joined, then given back what was still out, the last ticket first.  Of
the tickets that were entered none is lost and none is given back twice.  The transaction is closed,
and on its way it went from one state to the next.

While it is started its ledger is what the book says, all of which it gives back if it is asked to;
it can commit and abort, and to close it is to abort it first.  Once it has finished its ledger is
empty, and whatever only a started transaction does it refuses and leaves everything as it was. -/
theorem Course.settles (hc : Course S t trace) (locks : S) :
    let whole := trace ++ (t.drop locks).events.map Event.deed
    (∃ early held outcome, Held early held ∧
      whole = early ++ finale (joined early) outcome t.id held ∧
      told whole = (joined whole).map (·, outcome, t.id)) ∧
    (tickets .entered whole).Perm (tickets .struck whole ++ tickets .released whole) ∧
    (t.drop locks).transaction.state = .closed ∧
    (∀ op reply, t.perform locks op = some reply →
      ReflTransGen State.Next t.state reply.transaction.state) ∧
    (t.state = .started → Held trace t.ledger ∧
      (t.releaseAll locks).events.map Event.deed = givingBack t.ledger ∧
      (∃ after, t.commit locks = .ok after ∧ after.transaction.state = .committed ∧
        after.events.map Event.deed = finale (joined trace) .commit t.id t.ledger) ∧
      (∃ after, t.abort locks = .ok after ∧ after.transaction.state = .aborted ∧
        after.events.map Event.deed = finale (joined trace) .abort t.id t.ledger) ∧
      t.close locks = do
        let aborted ← t.abort locks
        let closed ← aborted.transaction.close aborted.locks
        return { closed with events := aborted.events ++ closed.events }) ∧
    (t.state ≠ .started → t.ledger = [] ∧ ∀ op name, op.starter? = some name →
      t.perform locks op = some (t.refuse locks (.invalidState t.id t.state name))) := by
  intro whole
  have hsofar := hc.chronicle
  have hdrop : Does t (.leave .drop) (.ok ()) (t.drop locks).transaction
      ((t.drop locks).events.map Event.deed) := does_of_run rfl
  have hclosed := hdrop.dropped
  obtain ⟨early, held, outcome, book, done⟩ := (hsofar.step hdrop).settled (by simp [hclosed])
  rw [hdrop.id_eq] at done
  have htold : told whole = (joined whole).map (·, outcome, t.id) := by
    show told (trace ++ _) = (joined (trace ++ _)).map _
    rw [done, told_append, joined_append, told_finale, joined_finale, book.told_eq,
      List.append_nil]
    rfl
  have hconserves : (tickets .entered whole).Perm
      (tickets .struck whole ++ tickets .released whole) := by
    show (tickets _ (trace ++ _)).Perm (tickets _ (trace ++ _) ++ tickets _ (trace ++ _))
    rw [done]
    exact book.conserves_finale _ outcome t.id
  refine ⟨⟨early, held, outcome, book, done, htold⟩, hconserves, hclosed,
    fun op reply performed => (does_of_perform performed).advances, fun hstarted => ?_,
    fun hfinished => ⟨?_, fun op name hname => perform_finished hfinished locks hname⟩⟩
  · cases hsofar with
    | running _ book listening =>
      rw [listening]
      exact ⟨book, deeds_releaseAll t locks, commit_started hstarted locks,
        abort_started hstarted locks, close_started hstarted locks⟩
    | ended finished => exact absurd hstarted finished
  · cases hsofar with
    | running started => exact absurd started hfinished
    | ended _ empty => exact empty

/-- A transaction that gave its locks back early, struck out one of two equal tickets, committed,
and could not be aborted then. -/
theorem Course.settles_equal_tickets :
    let t : Transaction Nat := { id := 7, state := .committed, listeners := [5, 6] }
    let trace : List (Deed Nat) :=
      [.ticket .entered ⟨0, .read⟩, .ticket .entered ⟨1, .write⟩, .ticket .released ⟨1, .write⟩,
        .ticket .released ⟨0, .read⟩, .joined 5, .ticket .entered ⟨0, .read⟩,
        .ticket .entered ⟨1, .read⟩, .ticket .entered ⟨0, .read⟩, .ticket .struck ⟨0, .read⟩,
        .joined 6, .told 5 .commit 7, .told 6 .commit 7, .ticket .released ⟨1, .read⟩,
        .ticket .released ⟨0, .read⟩]
    let noLocks : Array Lock := #[]
    Course (Array Lock) t trace ∧
    (∃ outcome, told (trace ++ (t.drop noLocks).events.map Event.deed) =
      [(5, outcome, 7), (6, outcome, 7)]) ∧
    t.perform noLocks (.acquire ⟨0, .read⟩) =
      some (t.refuse noLocks (.invalidState 7 .committed "acquire a lock")) := by
  intro t trace noLocks
  let locks : Array Lock := #[{}, {}]
  have begun : Course (Array Lock) ({ id := 7 } : Transaction Nat) [] := .begun 7 false
  have holding := (begun.call locks (.acquire ⟨0, .read⟩) (by decide) rfl).call locks
    (.acquire ⟨1, .write⟩) (by decide) rfl
  have emptied : Course (Array Lock) ({ id := 7, listeners := [5] } : Transaction Nat)
      (trace.take 5) :=
    (holding.call locks (.leave .releaseAll) (by decide) rfl).call locks (.listen 5) (by decide) rfl
  have equal := ((emptied.call locks (.register ⟨0, .read⟩) (by decide) rfl).call locks
    (.register ⟨1, .read⟩) (by decide) rfl).call locks (.register ⟨0, .read⟩) (by decide) rfl
  have struck := (equal.call locks (.deregister ⟨0, .read⟩) (by decide) rfl).call locks
    (.listen 6) (by decide) rfl
  have done : Course (Array Lock) t trace :=
    (struck.call locks (.leave .commit) (by decide) rfl).call locks (.leave .abort) (by decide) rfl
  obtain ⟨⟨early, held, outcome, -, -, htold⟩, -, -, -, -, hover⟩ := done.settles noLocks
  exact ⟨done, ⟨outcome, htold⟩, (hover (by decide)).2 (.acquire ⟨0, .read⟩) _ rfl⟩

end
end Folio.Transaction
