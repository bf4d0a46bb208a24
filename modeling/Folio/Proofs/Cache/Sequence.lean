import Folio.Proofs.Cache.Recency

/-! # The recency order in use

`Threads` says of a table of neighbours that it is a sequence.  Here the order is used: identities
come to its end, are taken out from anywhere and are moved to the end, and what is done to the table
is done to a sequence beside it (`Course`).  **`Course.refines`** says that whatever can be asked of
the one can be asked of the other.

The order is read by following neighbours from the head, and nothing but the neighbours says when to
stop: a wrong one would lead round in a circle.  So reading is also said without a bound on it
(`Passes`), as a walk that ends where there is no neighbour.
-/
namespace Folio.Cache.Recency

variable {r : Recency} {l before after : List ObjectId} {id a b : ObjectId}

/-! ## Reading from both sides -/

/-- The identity used before `id`. -/
def prev? (r : Recency) (id : ObjectId) : Option ObjectId := (r.links.get? id).bind (·.prev)

/-- **From `cursor` on the neighbours lead past `ids` and then no further.** -/
inductive Passes (r : Recency) : Option ObjectId → List ObjectId → Prop
  | stop : Passes r none []
  | go {id : ObjectId} {ids : List ObjectId} (others : Passes r (r.next? id) ids) :
      Passes r (some id) (id :: ids)

/-- There is one way from any place. -/
theorem Passes.unique {cursor : Option ObjectId} {ids ids' : List ObjectId}
    (h : r.Passes cursor ids) (h' : r.Passes cursor ids') : ids = ids' := by
  induction h generalizing ids' with
  | stop =>
    cases h'
    rfl
  | go others ih =>
    cases h' with
    | go others' => rw [ih others']

theorem Threads.next?_split (h : Threads r (before ++ id :: after)) : r.next? id = after.head? := by
  rw [next?, h.link before id after rfl]
  rfl

theorem Threads.prev?_split (h : Threads r (before ++ id :: after)) :
    r.prev? id = before.getLast? := by
  rw [prev?, h.link before id after rfl]
  rfl

/-- The walk from a member passes it and what comes after it. -/
theorem Threads.passes_split {rest : List ObjectId} (h : Threads r (before ++ rest)) :
    r.Passes rest.head? rest := by
  induction rest generalizing before with
  | nil => exact .stop
  | cons id rest ih =>
    refine .go ?_
    rw [h.next?_split]
    rw [List.append_cons] at h
    exact ih h

/-- **Reading the order comes to an end**, and passes the sequence. -/
theorem Threads.passes_iff (h : Threads r l) {ids : List ObjectId} :
    r.Passes r.head ids ↔ ids = l := by
  have hwhole : Threads r ([] ++ l) := h
  have hall : r.Passes r.head l := h.head ▸ hwhole.passes_split
  exact ⟨fun hids => hids.unique hall, fun hids => hids ▸ hall⟩

/-- Next to an identity is the one that comes after it. -/
theorem Threads.next?_eq_some_iff (h : Threads r l) : r.next? a = some b ↔ [a, b] <:+: l := by
  constructor
  · intro hnext
    have ha : a ∈ l := by
      by_contra hnot
      rw [next?, h.absent a hnot] at hnext
      cases hnext
    obtain ⟨before, after, rfl⟩ := List.append_of_mem ha
    rw [h.next?_split] at hnext
    obtain ⟨after, rfl⟩ := List.head?_eq_some_iff.1 hnext
    exact ⟨before, after, by simp⟩
  · rintro ⟨before, after, rfl⟩
    have hsplit : Threads r (before ++ a :: (b :: after)) := by simpa using h
    rw [hsplit.next?_split]
    rfl

theorem Threads.prev?_eq_some_iff (h : Threads r l) : r.prev? b = some a ↔ [a, b] <:+: l := by
  constructor
  · intro hprev
    have hb : b ∈ l := by
      by_contra hnot
      rw [prev?, h.absent b hnot] at hprev
      cases hprev
    obtain ⟨before, after, rfl⟩ := List.append_of_mem hb
    rw [h.prev?_split] at hprev
    obtain ⟨before, rfl⟩ := List.getLast?_eq_some_iff.1 hprev
    exact ⟨before, after, by simp⟩
  · rintro ⟨before, after, rfl⟩
    have hsplit : Threads r ((before ++ [a]) ++ b :: after) := by simpa using h
    rw [hsplit.prev?_split]
    exact List.getLast?_concat

/-- The identities that are linked are those of the sequence. -/
theorem Threads.keys_perm (h : Threads r l) : r.links.keys.Perm l := by
  refine (List.perm_ext_iff_of_nodup r.links.keys_nodup h.nodup).2 fun id => ?_
  rw [h.mem_iff]
  exact r.links.mem_keys_iff id

/-! ## Using the order -/

/-- A member of a sequence is moved to its end. -/
def moveToEnd (l : List ObjectId) (id : ObjectId) : List ObjectId :=
  if id ∈ l then l.erase id ++ [id] else l

/-- An identity that is not linked is not moved. -/
theorem Threads.touch_absent (h : Threads r l) (hid : id ∉ l) : r.touch id = r := by
  have htail : r.tail ≠ some id := fun htail => hid (List.mem_of_getLast? (h.tail ▸ htail))
  unfold Recency.touch
  rw [if_neg htail, if_neg (mt h.mem_iff.2 hid)]

theorem Threads.moveToEnd (h : Threads r l) (id : ObjectId) :
    Threads (r.touch id) (Recency.moveToEnd l id) := by
  unfold Recency.moveToEnd
  split
  · exact h.touch ‹_›
  · rwa [h.touch_absent ‹_›]

/-- **The order and a sequence beside it**, from the empty ones on.  An identity is put at the end
only if it is not linked. -/
inductive Course : Recency → List ObjectId → Prop
  | empty : Course {} []
  | pushBack {r : Recency} {l : List ObjectId} {id : ObjectId} (course : Course r l)
      (new : r.links.contains id = false) : Course (r.pushBack id) (l ++ [id])
  | unlink {r : Recency} {l : List ObjectId} (course : Course r l) (id : ObjectId) :
      Course (r.unlink id) (l.erase id)
  | touch {r : Recency} {l : List ObjectId} (course : Course r l) (id : ObjectId) :
      Course (r.touch id) (moveToEnd l id)

theorem Course.threads (h : Course r l) : Threads r l := by
  induction h with
  | empty => exact threads_empty
  | pushBack course new ih =>
    refine ih.pushBack fun hid => ?_
    rw [ih.mem_iff.1 hid] at new
    cases new
  | unlink course id ih => exact ih.unlink id
  | touch course id ih => exact ih.moveToEnd id

/-- **The order is the sequence.**  However it has been used, reading it comes to an end and gives
the sequence, in which nothing occurs twice.  Head and tail are its first and last identity, the
linked identities are its members, and the neighbours of each are those that stand next to it, so
that one leads back to where the other came from.  To take out or to move what is not a member
changes nothing. -/
theorem Course.refines (h : Course r l) :
    l.Nodup ∧ r.toList = l ∧ (∀ ids, r.Passes r.head ids ↔ ids = l) ∧
    r.head = l.head? ∧ r.tail = l.getLast? ∧ r.links.keys.Perm l ∧
    (∀ a b, r.next? a = some b ↔ [a, b] <:+: l) ∧
    (∀ a b, r.prev? b = some a ↔ r.next? a = some b) ∧
    ∀ id, id ∉ l → r.unlink id = r ∧ r.touch id = r := by
  have hthreads := h.threads
  refine ⟨hthreads.nodup, hthreads.toList_eq, fun _ => hthreads.passes_iff, hthreads.head,
    hthreads.tail, hthreads.keys_perm, fun _ _ => hthreads.next?_eq_some_iff, fun a b => ?_,
    fun id hid => ⟨hthreads.unlink_absent hid, hthreads.touch_absent hid⟩⟩
  rw [hthreads.prev?_eq_some_iff, hthreads.next?_eq_some_iff]

/-- Three identities are used, then the first of them again, and the second one is taken out. -/
theorem Course.refines_three :
    let r := (((((({} : Recency).pushBack 1).pushBack 2).pushBack 3).touch 1).unlink 2).touch 9
    Course r [3, 1] ∧ r.toList = [3, 1] ∧ (∀ ids, r.Passes r.head ids ↔ ids = [3, 1]) ∧
      r.next? 3 = some 1 ∧ r.prev? 1 = some 3 ∧ r.unlink 2 = r := by
  intro r
  have two : Course ((({} : Recency).pushBack 1).pushBack 2) [1, 2] :=
    .pushBack (.pushBack .empty rfl) rfl
  have three : Course (((({} : Recency).pushBack 1).pushBack 2).pushBack 3) [1, 2, 3] :=
    two.pushBack rfl
  have course : Course r [3, 1] := ((three.touch 1).unlink 2).touch 9
  obtain ⟨-, hread, hpasses, -, -, -, hnext, hprev, habsent⟩ := course.refines
  have hthree : r.next? 3 = some 1 := (hnext 3 1).2 ⟨[], [], rfl⟩
  exact ⟨course, hread, hpasses, hthree, (hprev 3 1).2 hthree, (habsent 2 (by decide)).1⟩

end Folio.Cache.Recency
