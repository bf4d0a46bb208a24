import Mathlib.Logic.Relation
import Folio.Proofs.Transaction.Operation

/-! # The open transactions

A registry strikes a transaction out when the transaction leaves it, and it is the transaction that
decides when that is.  A `Roster` keeps a list of all transactions that were begun, with a note of
those that have been closed or given up since, and whatever is asked of the registry and of the
transactions, in whatever order, the registry knows exactly those without the note:
**`Roster.registry_keeps_book`**.  Calls take effect one after another, whoever makes them.

The invariant (`Kept`) holds as long as the identities do not run out, which the step that begins a
transaction needs and no other.
-/
namespace Folio

open Transaction (Deed Does Error Farewell Operation Reply State)

/-- An operation that ends a transaction for good: it is given up, or closed with success. -/
def Transaction.Operation.ends {τ : Type} : Operation τ → Except Error Unit → Bool
  | .leave .drop, _ => true
  | .leave .close, .ok () => true
  | _, _ => false

/-- A transaction that was begun, and whether it has been closed or given up since. -/
structure Member (τ : Type) where
  transaction : Transaction τ
  ended : Bool := false

/-- A registry, and the transactions that it has begun in their order. -/
structure Roster (τ : Type) where
  registry : Registry := {}
  members : List (Member τ) := []

variable {τ S : Type}

namespace Member

theorem ends_ok {how : Farewell} (h : how = .close ∨ how = .drop) :
    (Operation.leave (τ := τ) how).ends (.ok ()) = true := by
  rcases h with rfl | rfl <;> rfl

/-- A transaction is in the registry until it is closed. -/
structure Sound (member : Member τ) : Prop where
  registered : member.transaction.registered = !member.ended
  closed : member.ended = true ↔ member.transaction.state = .closed

/-- **A transaction leaves the registry when it ends** and not before. -/
theorem Sound.does {member : Member τ} (hs : member.Sound) {op : Operation τ}
    {answer : Except Error Unit} {t : Transaction τ} {deeds : List (Deed τ)}
    (hd : Does member.transaction op answer t deeds) :
    Sound { transaction := t, ended := member.ended || op.ends answer } := by
  obtain ⟨hregistered, hclosed⟩ := hs
  have hopen {state : State} (hstate : member.transaction.state = state) (hne : state ≠ .closed) :
      member.ended = false := by
    rw [← Bool.not_eq_true, hclosed, hstate]
    exact hne
  cases hd with
  | refused lives e =>
    have hends : op.ends (.error e) = false := by
      cases op with
      | leave how =>
        cases how with
        | drop => exact absurd rfl lives
        | releaseAll | commit | abort | close => rfl
      | register | acquire | deregister | listen => rfl
    rw [hends, Bool.or_false]
    exact ⟨hregistered, hclosed⟩
  | registered | acquired | struck | joined | emptied =>
    simp only [Operation.ends, Bool.or_false]
    exact ⟨hregistered, hclosed⟩
  | committed started | aborted started =>
    have hended := hopen started (by decide)
    simp only [Operation.ends, Bool.or_false]
    exact ⟨hregistered, by simp [hended]⟩
  | cut started ends =>
    rw [ends_ok ends, Bool.or_true]
    exact ⟨rfl, iff_of_true rfl rfl⟩
  | closed finished ends =>
    rw [ends_ok ends, Bool.or_true]
    exact ⟨rfl, iff_of_true rfl rfl⟩
  | gone finished =>
    have hended := hclosed.2 finished
    rw [hended, Bool.true_or]
    exact ⟨hended ▸ hregistered, by simp [finished]⟩

end Member

namespace Roster

/-- The identities of the transactions in the order in which they were begun. -/
def ids (members : List (Member τ)) : List UInt64 := members.map (·.transaction.id)

/-- The identities of those that have not ended. -/
def openIds (members : List (Member τ)) : List UInt64 :=
  (members.filter (!·.ended)).map (·.transaction.id)

/-- A call on the registry or on one of the transactions.  Those that were given up may be called as
well, which changes nothing; a call that does not return is no move. -/
inductive Moves (S : Type) [LockSpace S] : Roster τ → Roster τ → Prop
  | start {r : Roster τ} {t : Transaction τ} {registry : Registry}
      (begun : r.registry.start = .ok (t, registry)) :
      Moves S r { registry, members := r.members ++ [{ transaction := t }] }
  | shutdown (r : Roster τ) : Moves S r { r with registry := r.registry.shutdown.2 }
  | call {registry : Registry} {front back : List (Member τ)} {member : Member τ} (locks : S)
      (op : Operation τ) {reply : Reply S τ}
      (performed : member.transaction.perform locks op = some reply) :
      Moves S { registry, members := front ++ member :: back }
        { registry := registry.follow member.transaction reply.transaction
          members := front ++ { transaction := reply.transaction
                                ended := member.ended || op.ends reply.answer } :: back }

/-- **The registry agrees with the list.** -/
structure Kept (r : Roster τ) : Prop where
  next : r.registry.nextId.toNat = r.members.length + 1
  rising : (ids r.members).Pairwise (· < ·)
  below : ∀ id ∈ ids r.members, id < r.registry.nextId
  active : r.registry.active = (openIds r.members).reverse
  sound : ∀ member ∈ r.members, member.Sound

section
variable {r r' : Roster τ} {front back : List (Member τ)} {member : Member τ} {id : UInt64}

theorem ids_append (front back : List (Member τ)) : ids (front ++ back) = ids front ++ ids back :=
  List.map_append

theorem ids_cons (member : Member τ) (back : List (Member τ)) :
    ids (member :: back) = member.transaction.id :: ids back :=
  rfl

theorem openIds_append (front back : List (Member τ)) :
    openIds (front ++ back) = openIds front ++ openIds back := by
  simp [openIds]

theorem openIds_cons (member : Member τ) (back : List (Member τ)) :
    openIds (member :: back) =
      if member.ended then openIds back else member.transaction.id :: openIds back := by
  unfold openIds
  cases hended : member.ended <;> simp [hended]

theorem openIds_sublist (members : List (Member τ)) : (openIds members).Sublist (ids members) :=
  List.filter_sublist.map _

theorem start_ok {registry after : Registry} {t : Transaction τ}
    (h : registry.start = .ok (t, after)) :
    t = { id := registry.nextId, registered := true } ∧
      after = { registry with
        nextId := registry.nextId + 1, active := registry.active.insert registry.nextId } := by
  unfold Registry.start at h
  split at h
  · cases h
  · cases h
    exact ⟨rfl, rfl⟩

theorem Kept.start (hk : r.Kept) {t : Transaction τ} {registry : Registry}
    (hstart : r.registry.start = .ok (t, registry))
    (hroom : r.members.length + 1 < UInt64.size - 1) :
    Kept { registry, members := r.members ++ [{ transaction := t }] } := by
  obtain ⟨rfl, rfl⟩ := start_ok hstart
  obtain ⟨hnext, hrising, hbelow, hactive, hsound⟩ := hk
  have hnumber : (r.registry.nextId + 1).toNat = r.members.length + 2 := by
    rw [UInt64.toNat_add, hnext, UInt64.toNat_one]
    show _ % UInt64.size = _
    exact Nat.mod_eq_of_lt (by omega)
  have hlast : r.registry.nextId < r.registry.nextId + 1 := by
    rw [UInt64.lt_iff_toNat_lt, hnumber, hnext]
    omega
  -- the new identity is above all others, so it does not take the place of one
  have hnew : r.registry.nextId ∉ r.registry.active := by
    intro hmem
    rw [hactive, List.mem_reverse] at hmem
    exact UInt64.lt_irrefl _ (hbelow _ ((openIds_sublist _).subset hmem))
  refine ⟨?_, ?_, ?_, ?_, List.forall_mem_append.2 ⟨hsound, List.forall_mem_singleton.2 ?_⟩⟩
  · rw [hnumber, List.length_append]
    rfl
  · rw [ids_append]
    refine List.pairwise_append.2 ⟨hrising, List.pairwise_singleton _ _, fun id hid => ?_⟩
    exact List.forall_mem_singleton.2 (hbelow id hid)
  · rw [ids_append]
    refine List.forall_mem_append.2 ⟨fun id hid => ?_, List.forall_mem_singleton.2 hlast⟩
    exact UInt64.lt_trans (hbelow id hid) hlast
  · show r.registry.active.insert r.registry.nextId = _
    rw [List.insert_of_not_mem hnew, hactive, openIds_append, List.reverse_append]
    rfl
  · exact ⟨rfl, by simp⟩

/-- Who is not in the list cannot be struck out. -/
theorem strike_openIds {members : List (Member τ)} (hnot : id ∉ ids members) :
    (openIds members).filter (· ≠ id) = openIds members := by
  refine List.filter_eq_self.2 fun other hother => decide_eq_true fun heq => hnot ?_
  exact heq ▸ (openIds_sublist members).subset hother

/-- **Who ends is struck out**, and nobody else is. -/
theorem active_follow {registry : Registry} {after : Member τ}
    (hactive : registry.active = (openIds (front ++ member :: back)).reverse)
    (hfront : member.transaction.id ∉ ids front) (hback : member.transaction.id ∉ ids back)
    (hs : member.Sound) (hafter : after.Sound)
    (hid : after.transaction.id = member.transaction.id)
    (hended : member.ended = true → after.ended = true) :
    (registry.follow member.transaction after.transaction).active =
      (openIds (front ++ after :: back)).reverse := by
  rw [openIds_append, openIds_cons] at hactive ⊢
  unfold Registry.follow
  rw [hs.registered, hafter.registered]
  cases hbefore : member.ended with
  | true =>
    rw [hbefore] at hactive
    rw [hended hbefore]
    exact hactive
  | false =>
    rw [hbefore, if_neg Bool.false_ne_true] at hactive
    cases after.ended with
    | false =>
      rw [hid]
      exact hactive
    | true =>
      show registry.active.filter (· ≠ member.transaction.id) = _
      rw [hactive, List.filter_reverse, List.filter_append, List.filter_cons_of_neg (by simp),
        strike_openIds hfront, strike_openIds hback]
      rfl

theorem Kept.call {registry : Registry} {after : Member τ}
    (hk : Kept { registry, members := front ++ member :: back })
    (hid : after.transaction.id = member.transaction.id) (hafter : after.Sound)
    (hended : member.ended = true → after.ended = true) :
    Kept { registry := registry.follow member.transaction after.transaction
           members := front ++ after :: back } := by
  obtain ⟨hnext, hrising, hbelow, hactive, hsound⟩ := hk
  have hids : ids (front ++ after :: back) = ids (front ++ member :: back) := by
    rw [ids_append, ids_append, ids_cons, ids_cons, hid]
  have hmember := hsound member (List.mem_append_right _ List.mem_cons_self)
  have hsplit := hrising
  rw [ids_append, ids_cons, List.pairwise_append, List.pairwise_cons] at hsplit
  obtain ⟨-, ⟨hlater, -⟩, hearlier⟩ := hsplit
  have hfront : member.transaction.id ∉ ids front := fun hmem =>
    UInt64.lt_irrefl _ (hearlier _ hmem _ List.mem_cons_self)
  have hback : member.transaction.id ∉ ids back := fun hmem =>
    UInt64.lt_irrefl _ (hlater _ hmem)
  have hkeeps :
      (registry.follow member.transaction after.transaction).nextId = registry.nextId := by
    unfold Registry.follow
    split <;> rfl
  refine ⟨?_, ?_, ?_, active_follow hactive hfront hback hmember hafter hid hended, ?_⟩
  · rw [hkeeps, hnext]
    simp
  · rw [hids]
    exact hrising
  · rw [hids, hkeeps]
    exact hbelow
  · rw [List.forall_mem_append, List.forall_mem_cons] at hsound ⊢
    exact ⟨hsound.1, hafter, hsound.2.2⟩

end

/-! ## All calls -/

section
variable [LockSpace S] {r r' : Roster τ}

open Relation (ReflTransGen)

theorem Moves.length_le (hm : Moves S r r') : r.members.length ≤ r'.members.length := by
  cases hm with
  | start begun => simp
  | shutdown => exact Nat.le_refl _
  | call locks op performed => simp

/-- **One call more.** -/
theorem Kept.move (hk : r.Kept) (hm : Moves S r r') (hroom : r'.members.length < UInt64.size - 1) :
    r'.Kept := by
  cases hm with
  | start begun => exact hk.start begun (by simpa using hroom)
  | shutdown => exact ⟨hk.next, hk.rising, hk.below, hk.active, hk.sound⟩
  | @call registry front back member locks op reply performed =>
    have hdoes := Transaction.does_of_perform performed
    have hmember := hk.sound member (List.mem_append_right _ List.mem_cons_self)
    exact hk.call hdoes.id_eq (hmember.does hdoes) fun hended => by rw [hended, Bool.true_or]

theorem kept_of_reached (h : ReflTransGen (Moves S) {} r)
    (hroom : r.members.length < UInt64.size - 1) : r.Kept := by
  induction h with
  | refl => exact ⟨rfl, .nil, by simp [ids], rfl, by simp⟩
  | tail before move ih => exact (ih (Nat.lt_of_le_of_lt move.length_le hroom)).move move hroom

/-- A registry that is shut down begins nothing and strikes out only. -/
theorem Moves.shut (hm : Moves S r r') (hshut : r.registry.shutDown = true) :
    r'.registry.shutDown = true ∧ r'.registry.active.Sublist r.registry.active := by
  cases hm with
  | start begun =>
    unfold Registry.start at begun
    rw [if_pos hshut] at begun
    cases begun
  | shutdown => exact ⟨rfl, .refl _⟩
  | call locks op performed =>
    unfold Registry.follow
    split
    · exact ⟨hshut, List.filter_sublist⟩
    · exact ⟨hshut, .refl _⟩

theorem shut_of_moves (h : ReflTransGen (Moves S) r r') (hshut : r.registry.shutDown = true) :
    r'.registry.shutDown = true ∧ r'.registry.active.Sublist r.registry.active := by
  induction h with
  | refl => exact ⟨hshut, .refl _⟩
  | tail _ move ih =>
    obtain ⟨hstill, hless⟩ := move.shut ih.1
    exact ⟨hstill, hless.trans ih.2⟩

/-- The open transactions are shown in the order in which they were begun. -/
theorem Kept.activeIds (hk : r.Kept) : r.registry.activeIds = openIds r.members := by
  have hrising : (openIds r.members).Pairwise (· < ·) :=
    hk.rising.sublist (openIds_sublist r.members)
  have hperm : r.registry.activeIds.Perm (openIds r.members) := by
    refine (List.mergeSort_perm _ _).trans ?_
    rw [hk.active]
    exact List.reverse_perm _
  have hsorted : r.registry.activeIds.Pairwise (fun a b => decide (a ≤ b) = true) :=
    List.pairwise_mergeSort (by simpa using fun a b c => UInt64.le_trans)
      (by simpa using UInt64.le_total) _
  refine List.Perm.eq_of_pairwise (fun a b _ _ hab hba => ?_) hsorted
    (hrising.imp fun hlt => decide_eq_true (UInt64.le_of_lt hlt)) hperm
  exact UInt64.le_antisymm (of_decide_eq_true hab) (of_decide_eq_true hba)

/-- **The registry knows which transactions are open**, whatever is asked of it and of the
transactions, in whatever order, as long as the identities do not run out.  Identities rise, and the
next transaction has one above all others.  Active are the transactions that have been neither
closed nor given up, such as one that has committed and is not closed; they are shown in ascending
order, and each is counted once.  Once the registry is shut down it begins nothing any more, and its
transactions become fewer and fewer. -/
theorem registry_keeps_book (h : ReflTransGen (Moves S) {} r)
    (hroom : r.members.length < UInt64.size - 1) :
    (ids r.members).Pairwise (· < ·) ∧
    (r.registry.shutDown = false → ∃ (t : Transaction τ) (registry : Registry),
      r.registry.start = .ok (t, registry) ∧ ∀ id ∈ ids r.members, id < t.id) ∧
    (∀ member ∈ r.members, member.ended = true ↔ member.transaction.state = .closed) ∧
    (∀ id, r.registry.isActive id = true ↔ id ∈ openIds r.members) ∧
    r.registry.activeIds = openIds r.members ∧ (openIds r.members).Pairwise (· < ·) ∧
    r.registry.active.length = (openIds r.members).length ∧
    ∀ later, ReflTransGen (Moves S) { r with registry := r.registry.shutdown.2 } later →
      (later.registry.start : Except Error (Transaction τ × Registry)) = .error .shutdown ∧
      ∀ latest, ReflTransGen (Moves S) later latest →
        latest.registry.active.Sublist later.registry.active := by
  have hk := kept_of_reached h hroom
  refine ⟨hk.rising, fun hopen => ?_, fun member hmember => (hk.sound member hmember).closed,
    fun id => ?_, hk.activeIds, hk.rising.sublist (openIds_sublist r.members), ?_,
    fun later hlater => ?_⟩
  · refine ⟨_, _, if_neg (Bool.eq_false_iff.1 hopen), hk.below⟩
  · rw [Registry.isActive, decide_eq_true_iff, hk.active, List.mem_reverse]
  · rw [hk.active, List.length_reverse]
  · have hshut := (shut_of_moves hlater rfl).1
    exact ⟨if_pos hshut, fun latest hlatest => (shut_of_moves hlatest hshut).2⟩

/-- The first of three transactions has committed, the second was closed and could not be closed
again, and the third was given up. -/
theorem registry_keeps_book_of_three :
    let committed : Member Unit :=
      { transaction := { id := 1, state := .committed, registered := true } }
    let closed (id : UInt64) : Member Unit :=
      { transaction := { id, state := .closed }, ended := true }
    let r : Roster Unit :=
      { registry := { nextId := 4, active := [1] }, members := [committed, closed 2, closed 3] }
    ReflTransGen (Moves (Array Lock)) {} r ∧ r.registry.activeIds = [1] ∧
    ∀ later, ReflTransGen (Moves (Array Lock)) { r with registry := r.registry.shutdown.2 } later →
      (later.registry.start : Except Error (Transaction Unit × Registry)) = .error .shutdown := by
  intro committed closed r
  let fresh (id : UInt64) : Member Unit := { transaction := { id, registered := true } }
  have call (registry : Registry) (front back : List (Member Unit)) (member : Member Unit)
      (op : Operation Unit) {reply : Reply (Array Lock) Unit}
      (performed : member.transaction.perform #[] op = some reply) :=
    @Moves.call Unit (Array Lock) _ registry front back member #[] op reply performed
  have begun : ReflTransGen (Moves (Array Lock)) ({} : Roster Unit)
      { registry := { nextId := 4, active := [3, 2, 1] }
        members := [fresh 1, fresh 2, fresh 3] } :=
    ((ReflTransGen.single (.start rfl)).tail (.start rfl)).tail (.start rfl)
  have done : ReflTransGen (Moves (Array Lock)) ({} : Roster Unit) r :=
    (((begun.tail (call _ [] [fresh 2, fresh 3] (fresh 1) (.leave .commit) rfl)).tail
      (call _ [committed] [fresh 3] (fresh 2) (.leave .close) rfl)).tail
      (call _ [committed] [fresh 3] (closed 2) (.leave .close) rfl)).tail
      (call _ [committed, closed 2] [] (fresh 3) (.leave .drop) rfl)
  obtain ⟨-, -, -, -, hactive, -, -, hshut⟩ := registry_keeps_book done (by decide)
  exact ⟨done, hactive, fun later hlater => (hshut later hlater).1⟩

end
end Roster
end Folio
