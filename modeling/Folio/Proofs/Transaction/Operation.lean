import Folio.Proofs.Transaction.Hall

/-! # What is asked of a transaction

An `Operation` is a call on a transaction, and `Transaction.perform` is its `Reply`: the answer,
what the transaction and the locks have become, and what was done, one `Deed` after another.  The
locks are those at the time of the call, whoever else has used them in the meantime; for an acquire
that had to wait they are those at the time when it was granted.  `Does` says once what an operation
can come to (`does_of_perform`); what a transaction does over its whole life follows from that.
-/
namespace Folio.Transaction

variable {τ S : Type}

/-! ## Operations and deeds -/

/-- A call on a transaction. -/
inductive Operation (τ : Type) where
  | register (ticket : Ticket)
  | acquire (ticket : Ticket)
  | deregister (ticket : Ticket)
  | listen (listener : τ)
  | leave (how : Farewell)
deriving DecidableEq, Repr

/-- How a refusal calls an operation that only a started transaction performs. -/
def Operation.starter? : Operation τ → Option String
  | .register _ => some "register a lock"
  | .acquire _ => some "acquire a lock"
  | .listen _ => some "register a listener"
  | .leave .commit => some "commit"
  | .leave .abort => some "abort"
  | .deregister _ | .leave .releaseAll | .leave .close | .leave .drop => none

/-- What becomes of a ticket. -/
inductive Fate where
  | entered | struck | released
deriving DecidableEq, Repr

inductive Deed (τ : Type) where
  | joined (listener : τ)
  | told (listener : τ) (outcome : Outcome) (id : UInt64)
  | ticket (fate : Fate) (ticket : Ticket)
deriving DecidableEq, Repr

def Event.deed : Event τ → Deed τ
  | .notified listener outcome id => .told listener outcome id
  | .released ticket _ => .ticket .released ticket

/-- What comes of a call on a transaction. -/
structure Reply (S τ : Type) where
  answer : Except Error Unit
  transaction : Transaction τ
  locks : S
  deeds : List (Deed τ)

/-- The operation is refused, and nothing is done. -/
def refuse (t : Transaction τ) (locks : S) (e : Error) : Reply S τ :=
  { answer := .error e, transaction := t, locks, deeds := [] }

def After.reply (after : After S τ) : Reply S τ :=
  { answer := .ok (), transaction := after.transaction, locks := after.locks
    deeds := after.events.map Event.deed }

/-- The operation does one thing, or is refused. -/
def reply (t : Transaction τ) (locks : S) (deed : Deed τ) :
    Except Error (Transaction τ) → Reply S τ
  | .ok after => { answer := .ok (), transaction := after, locks, deeds := [deed] }
  | .error e => t.refuse locks e

/-- What comes of an operation; `none` if the call does not return, because it waits without end or
because there is no ticket to strike out. -/
def perform [LockSpace S] (t : Transaction τ) (locks : S) : Operation τ → Option (Reply S τ)
  | .register ticket => some (t.reply locks (.ticket .entered ticket) (t.register ticket))
  | .acquire ticket =>
    match t.acquire ticket locks with
    | some (.ok (after, locks)) => some (t.reply locks (.ticket .entered ticket) (.ok after))
    | some (.error e) => some (t.refuse locks e)
    | none => none
  | .deregister ticket =>
    match t.deregister ticket with
    | .ok after => some (t.reply locks (.ticket .struck ticket) (.ok after))
    | .error _ => none
  | .listen listener => some (t.reply locks (.joined listener) (t.listen listener))
  | .leave how =>
    match how.run t locks with
    | .ok after => some after.reply
    | .error e => some (t.refuse locks e)

/-! ## Deeds in their order -/

/-- Locks are given back, the last one first. -/
def givingBack (held : List Ticket) : List (Deed τ) := held.reverse.map (.ticket .released)

/-- The listeners are told the outcome, and then the locks are given back. -/
def finale (listeners : List τ) (outcome : Outcome) (id : UInt64) (held : List Ticket) :
    List (Deed τ) :=
  listeners.map (.told · outcome id) ++ givingBack held

section
variable [LockSpace S] {t : Transaction τ} {locks : S}

theorem deed_releaseOne (locks : S) (ticket : Ticket) :
    (releaseOne (τ := τ) locks ticket).1.deed = .ticket .released ticket := by
  unfold releaseOne
  split <;> rfl

theorem deeds_releaseEach (locks : S) (tickets : List Ticket) :
    (releaseEach (τ := τ) locks tickets).1.map Event.deed = tickets.map (.ticket .released) := by
  induction tickets generalizing locks with
  | nil => rfl
  | cons ticket tickets ih =>
    simp only [releaseEach, List.map_cons, deed_releaseOne, ih]

theorem deeds_releaseAll (t : Transaction τ) (locks : S) :
    (t.releaseAll locks).events.map Event.deed = givingBack t.ledger :=
  deeds_releaseEach locks t.ledger.reverse

theorem deeds_conclude (t : Transaction τ) (outcome : Outcome) (locks : S) :
    (t.conclude outcome locks).events.map Event.deed =
      finale t.listeners outcome t.id t.ledger := by
  unfold conclude finale
  rw [List.map_append, List.map_map, deeds_releaseAll]
  rfl

/-! ## What an operation can come to -/

/-- The transaction after it was closed. -/
def closed (t : Transaction τ) : Transaction τ :=
  { t with state := .closed, listeners := [], registered := false }

/-- **What an operation can come to.** -/
inductive Does (t : Transaction τ) : Operation τ → Except Error Unit → Transaction τ →
    List (Deed τ) → Prop
  | refused {op : Operation τ} (lives : op ≠ .leave .drop) (e : Error) : Does t op (.error e) t []
  | registered (started : t.state = .started) (ticket : Ticket) :
      Does t (.register ticket) (.ok ()) { t with ledger := t.ledger ++ [ticket] }
        [.ticket .entered ticket]
  | acquired (started : t.state = .started) (ticket : Ticket) :
      Does t (.acquire ticket) (.ok ()) { t with ledger := t.ledger ++ [ticket] }
        [.ticket .entered ticket]
  | struck {front back : List Ticket} {ticket : Ticket} (held : t.ledger = front ++ ticket :: back)
      (latest : ticket ∉ back) :
      Does t (.deregister ticket) (.ok ()) { t with ledger := front ++ back }
        [.ticket .struck ticket]
  | joined (started : t.state = .started) (listener : τ) :
      Does t (.listen listener) (.ok ()) { t with listeners := t.listeners ++ [listener] }
        [.joined listener]
  | emptied : Does t (.leave .releaseAll) (.ok ()) { t with ledger := [] } (givingBack t.ledger)
  | committed (started : t.state = .started) :
      Does t (.leave .commit) (.ok ()) { t with state := .committed, ledger := [] }
        (finale t.listeners .commit t.id t.ledger)
  | aborted (started : t.state = .started) :
      Does t (.leave .abort) (.ok ()) { t with state := .aborted, ledger := [] }
        (finale t.listeners .abort t.id t.ledger)
  | cut (started : t.state = .started) {how : Farewell} (ends : how = .close ∨ how = .drop) :
      Does t (.leave how) (.ok ()) { t.closed with ledger := [] }
        (finale t.listeners .abort t.id t.ledger)
  | closed (finished : t.state = .committed ∨ t.state = .aborted) {how : Farewell}
      (ends : how = .close ∨ how = .drop) : Does t (.leave how) (.ok ()) t.closed []
  | gone (finished : t.state = .closed) : Does t (.leave .drop) (.ok ()) t []

theorem Does.id_eq {op : Operation τ} {answer : Except Error Unit} {t' : Transaction τ}
    {deeds : List (Deed τ)} (hd : Does t op answer t' deeds) : t'.id = t.id := by
  cases hd <;> rfl

theorem acquire_finished (hstate : t.state ≠ .started) (ticket : Ticket) (locks : S) :
    t.acquire ticket locks = some (.error (.invalidState t.id t.state "acquire a lock")) := by
  unfold acquire ensureStarted
  rw [if_neg hstate]

/-- The latest of several equal tickets is struck out. -/
theorem deregister_ok {after : Transaction τ} {ticket : Ticket}
    (h : t.deregister ticket = .ok after) :
    ∃ front back, t.ledger = front ++ ticket :: back ∧ ticket ∉ back ∧
      after = { t with ledger := front ++ back } := by
  unfold deregister at h
  split at h
  · rename_i hmem
    obtain ⟨later, earlier, hsplit, hlatest⟩ :=
      List.eq_append_cons_of_mem (List.mem_reverse.2 hmem)
    cases h
    refine ⟨earlier.reverse, later.reverse, ?_, by simpa using hlatest, ?_⟩
    · rw [← List.reverse_inj, hsplit]
      simp
    · rw [hsplit, List.erase_append_right _ hlatest, List.erase_cons_head, List.reverse_append]
  · cases h

/-- A transaction that is closed as it should be, or because it is given up. -/
theorem does_of_close {after : After S τ} (h : t.close locks = .ok after) {how : Farewell}
    (hends : how = .close ∨ how = .drop) :
    Does t (.leave how) (.ok ()) after.transaction (after.events.map Event.deed) := by
  unfold close at h
  split at h
  · cases h
  · rename_i hstarted
    cases h
    rw [deeds_conclude]
    exact .cut hstarted hends
  · rename_i hcommitted
    cases h
    exact .closed (.inl hcommitted) hends
  · rename_i haborted
    cases h
    exact .closed (.inr haborted) hends

theorem does_of_run {how : Farewell} {after : After S τ} (h : how.run t locks = .ok after) :
    Does t (.leave how) (.ok ()) after.transaction (after.events.map Event.deed) := by
  cases how with
  | releaseAll =>
    cases h
    rw [deeds_releaseAll]
    exact .emptied
  | commit =>
    have hcommit : t.commit locks = .ok after := h
    rw [commit_eq] at hcommit
    split at hcommit
    · rename_i hstarted
      cases hcommit
      rw [deeds_conclude]
      exact .committed hstarted
    · cases hcommit
  | abort =>
    have habort : t.abort locks = .ok after := h
    rw [abort_eq] at habort
    split at habort
    · rename_i hstarted
      cases habort
      rw [deeds_conclude]
      exact .aborted hstarted
    · cases habort
  | close => exact does_of_close h (.inl rfl)
  | drop =>
    cases h
    unfold drop
    cases hclose : t.close locks with
    | ok after => exact does_of_close hclose (.inr rfl)
    | error e => exact .gone (close_error hclose)

theorem does_of_perform {op : Operation τ} {r : Reply S τ} (h : t.perform locks op = some r) :
    Does t op r.answer r.transaction r.deeds := by
  cases op with
  | register ticket =>
    cases h
    rw [register_eq]
    split
    · rename_i hstarted
      exact .registered hstarted ticket
    · exact .refused (by simp) _
  | acquire ticket =>
    simp only [perform] at h
    split at h
    · rename_i after locks' hacquire
      cases h
      have hstarted : t.state = .started := Decidable.byContradiction fun hfinished => by
        rw [acquire_finished hfinished] at hacquire
        cases hacquire
      obtain ⟨-, -, -, -, rfl, -⟩ := acquire_ok hacquire
      exact .acquired hstarted ticket
    · cases h
      exact .refused (by simp) _
    · cases h
  | deregister ticket =>
    simp only [perform] at h
    split at h
    · rename_i after hderegister
      cases h
      obtain ⟨front, back, hheld, hlatest, rfl⟩ := deregister_ok hderegister
      exact .struck hheld hlatest
    · cases h
  | listen listener =>
    cases h
    rw [listen_eq]
    split
    · rename_i hstarted
      exact .joined hstarted listener
    · exact .refused (by simp) _
  | leave how =>
    simp only [perform] at h
    split at h
    · rename_i after hrun
      cases h
      exact does_of_run hrun
    · rename_i e hrun
      cases h
      -- a transaction that is given up has no way to refuse
      refine .refused (fun hdrop => ?_) e
      cases hdrop
      cases hrun

/-- **A transaction that has finished refuses** what only a started one does. -/
theorem perform_finished (hstate : t.state ≠ .started) (locks : S) {op : Operation τ}
    {name : String} (hname : op.starter? = some name) :
    t.perform locks op = some (t.refuse locks (.invalidState t.id t.state name)) := by
  cases op with
  | register ticket =>
    cases hname
    simp only [perform, register_eq, if_neg hstate, reply]
  | acquire ticket =>
    cases hname
    simp only [perform, acquire_finished hstate]
  | listen listener =>
    cases hname
    simp only [perform, listen_eq, if_neg hstate, reply]
  | deregister ticket => cases hname
  | leave how =>
    cases how with
    | commit =>
      cases hname
      simp only [perform, Farewell.run, commit_eq, if_neg hstate]
    | abort =>
      cases hname
      simp only [perform, Farewell.run, abort_eq, if_neg hstate]
    | releaseAll | close | drop => cases hname

end
end Folio.Transaction
