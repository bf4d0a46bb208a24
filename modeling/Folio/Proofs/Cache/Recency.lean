import Mathlib.Data.List.Basic
import Folio.Cache.Recency

/-! # The recency order is a sequence

`Recency` threads the order of use through a table of neighbours, so that a wrong
neighbour, head or tail would show only later.  `Threads r l` says that all of them
are those of the duplicate-free sequence `l`.  On that sequence, `pushBack` appends,
`unlink` erases and `touch` moves to the end (`Threads.pushBack`, `Threads.unlink`,
`Threads.touch`), and reading the order from its head gives the sequence back
(`Threads.toList_eq`).
-/
namespace Folio.Cache.Recency

/-- The order `r` is the sequence `l`, least recently used first. -/
structure Threads (r : Recency) (l : List ObjectId) : Prop where
  nodup : l.Nodup
  head : r.head = l.head?
  tail : r.tail = l.getLast?
  /-- Each member knows its neighbours. -/
  link : ∀ before id after, l = before ++ id :: after →
    r.links.get? id = some { prev := before.getLast?, next := after.head? }
  /-- Nothing else is linked. -/
  absent : ∀ id, id ∉ l → r.links.get? id = none

theorem threads_empty : Threads {} [] where
  nodup := List.nodup_nil
  head := rfl
  tail := rfl
  link := by simp
  absent _ _ := rfl

variable {r : Recency} {l before after : List ObjectId} {id : ObjectId}

/-! ## Reading the sequence back -/

theorem Threads.mem_iff (h : Threads r l) : id ∈ l ↔ r.links.contains id = true := by
  rw [Table.contains_eq]
  constructor
  · intro hid
    obtain ⟨before, after, hl⟩ := List.append_of_mem hid
    rw [h.link before id after hl]
    rfl
  · intro hid
    by_contra hn
    rw [h.absent id hn] at hid
    exact Bool.false_ne_true hid

theorem Threads.size_links (h : Threads r l) : r.links.size = l.length := by
  rw [← Table.length_keys]
  refine List.Perm.length_eq ((List.perm_ext_iff_of_nodup r.links.keys_nodup h.nodup).2 ?_)
  intro id
  rw [h.mem_iff]
  exact r.links.mem_keys_iff id

theorem Threads.walk_eq {rest : List ObjectId} (h : Threads r (before ++ rest)) {fuel : Nat}
    (hfuel : rest.length ≤ fuel) : r.walk fuel rest.head? = rest := by
  induction rest generalizing before fuel with
  | nil => cases fuel <;> rfl
  | cons id rest ih =>
    obtain ⟨fuel, rfl⟩ := Nat.exists_eq_add_of_lt (Nat.zero_lt_of_lt hfuel)
    have hnext : r.next? id = rest.head? := by rw [next?, h.link before id rest rfl]; rfl
    rw [Nat.zero_add, List.head?_cons, walk, hnext]
    rw [List.append_cons] at h
    exact congrArg (id :: ·) (ih h (by simpa using hfuel))

/-- **Reading from the head gives the sequence.** -/
theorem Threads.toList_eq (h : Threads r l) : r.toList = l := by
  have hall : Threads r ([] ++ l) := h
  rw [toList, h.head, h.size_links]
  exact hall.walk_eq (Nat.le_refl _)

/-! ## Appending -/

theorem get?_pushBack (r : Recency) (id x : ObjectId) :
    (r.pushBack id).links.get? x =
      if x = id then some { prev := r.tail, next := none }
      else (r.links.get? x).map fun k =>
        if r.tail = some x then { k with next := some id } else k := by
  unfold Recency.pushBack
  cases htail : r.tail with
  | none => by_cases hx : x = id <;> simp [hx]
  | some last =>
    by_cases hx : x = id
    · simp [hx]
    · by_cases hlast : x = last
      · simp [hlast]
      · simp [hx, hlast, Ne.symm hlast]

theorem Threads.pushBack (h : Threads r l) (hid : id ∉ l) :
    Threads (r.pushBack id) (l ++ [id]) := by
  refine ⟨List.nodup_append.2 ⟨h.nodup, by simp, by grind⟩, ?_, ?_, ?_, ?_⟩
  · have hhead := h.head
    have htail := h.tail
    unfold Recency.pushBack
    cases l with
    | nil => rw [htail]; rfl
    | cons a l => rw [htail, List.getLast?_cons]; exact hhead
  · unfold Recency.pushBack
    split <;> simp
  · intro before x after hl
    rcases List.eq_nil_or_concat' after with rfl | ⟨after, y, rfl⟩
    · obtain ⟨rfl, hx⟩ := List.append_inj' hl rfl
      obtain rfl : id = x := List.head_eq_of_cons_eq hx
      simp [get?_pushBack, h.tail]
    · rw [← List.cons_append, ← List.append_assoc] at hl
      obtain ⟨rfl, hy⟩ := List.append_inj' hl rfl
      obtain rfl : id = y := List.head_eq_of_cons_eq hy
      have hx : x ≠ id := fun hx => hid (by simp [hx])
      rw [get?_pushBack, if_neg hx, h.link before x after rfl, h.tail]
      -- `x` gets a new neighbour exactly if it was the last
      cases after with
      | nil => simp
      | cons y after =>
        have hnodup := h.nodup
        have hlast : (y :: after).getLast? ≠ some x := fun hlast =>
          (List.nodup_cons.1 (List.nodup_append.1 hnodup).2.1).1 (List.mem_of_getLast? hlast)
        simp [hlast]
  · intro x hx
    rw [List.mem_append, List.mem_singleton, not_or] at hx
    rw [get?_pushBack, if_neg hx.2, h.absent x hx.1]
    rfl

/-! ## Erasing -/

theorem get?_unlink {link : Link} (hlink : r.links.get? id = some link) (x : ObjectId) :
    (r.unlink id).links.get? x =
      if x = id then none
      else (r.links.get? x).map fun k =>
        { prev := if link.next = some x then link.prev else k.prev
          next := if link.prev = some x then link.next else k.next } := by
  obtain ⟨prev, next⟩ := link
  by_cases hx : x = id
  · cases prev <;> cases next <;> simp [Recency.unlink, hlink, hx]
  · rw [if_neg hx]
    cases hk : r.links.get? x with
    | none => cases prev <;> cases next <;> simp [Recency.unlink, hlink, hx, hk]
    | some k =>
      obtain ⟨p, n⟩ := k
      cases prev <;> cases next <;> simp [Recency.unlink, hlink, hx, hk] <;> grind

theorem head_unlink {link : Link} (hlink : r.links.get? id = some link) :
    (r.unlink id).head = if link.prev = none then link.next else r.head := by
  obtain ⟨prev, next⟩ := link
  cases prev <;> cases next <;> simp [Recency.unlink, hlink]

theorem tail_unlink {link : Link} (hlink : r.links.get? id = some link) :
    (r.unlink id).tail = if link.next = none then link.prev else r.tail := by
  obtain ⟨prev, next⟩ := link
  cases prev <;> cases next <;> simp [Recency.unlink, hlink]

theorem Threads.unlink_split (h : Threads r (before ++ id :: after)) :
    Threads (r.unlink id) (before ++ after) := by
  have hlink := h.link before id after rfl
  have hnodup := h.nodup
  rw [List.nodup_append, List.nodup_cons] at hnodup
  obtain ⟨hbefore, ⟨hid, hafter⟩, hdisjoint⟩ := hnodup
  refine ⟨List.nodup_append.2 ⟨hbefore, hafter, fun a ha b hb =>
    hdisjoint a ha b (List.mem_cons_of_mem _ hb)⟩, ?_, ?_, ?_, ?_⟩
  · rw [head_unlink hlink, h.head]
    cases before <;> simp
  · rw [tail_unlink hlink, h.tail]
    cases after <;> simp
  · intro b x a hl
    have hx : x ≠ id := by
      have : x ∈ before ++ after := by simp [hl]
      grind
    rw [get?_unlink hlink, if_neg hx]
    -- `x` stands after the place of `id` or before it
    have hsplit : (∃ c, b = before ++ c ∧ after = c ++ x :: a) ∨
        ∃ c, before = b ++ x :: c ∧ a = c ++ after := by
      rcases List.append_eq_append_iff.1 hl with hl | ⟨_ | ⟨y, c⟩, hb, hc⟩
      · exact Or.inl hl
      · exact Or.inl ⟨[], by simpa using hb.symm, by simpa using hc.symm⟩
      · obtain ⟨rfl, rfl⟩ := List.cons.inj hc
        exact Or.inr ⟨c, hb, rfl⟩
    rcases hsplit with ⟨c, rfl, rfl⟩ | ⟨c, rfl, rfl⟩
    · have hprev : before.getLast? ≠ some x := fun hlast =>
        hdisjoint x (List.mem_of_getLast? hlast) x (by simp) rfl
      rw [h.link (before ++ id :: c) x a (by simp)]
      cases c with
      | nil => simp [hprev]
      | cons y c =>
        have hne : y ≠ x := fun hyx => (List.nodup_cons.1 hafter).1 (by simp [hyx])
        simp [hprev, hne]
    · have hnext : after.head? ≠ some x := fun hhead =>
        hdisjoint x (by simp) x (List.mem_cons_of_mem _ (List.mem_of_head? hhead)) rfl
      rw [h.link b x (c ++ id :: after) (by simp)]
      cases c with
      | nil => simp [hnext]
      | cons y c =>
        have hlast : (y :: c).getLast? ≠ some x := fun hlast =>
          (List.nodup_cons.1 (List.nodup_append.1 hbefore).2.1).1 (List.mem_of_getLast? hlast)
        simp [hnext, hlast]
  · intro x hx
    rw [List.mem_append, not_or] at hx
    rw [get?_unlink hlink]
    by_cases hxid : x = id
    · exact if_pos hxid
    · rw [if_neg hxid, h.absent x (by simp [hx, hxid])]
      rfl

/-- An identity that is not linked is taken out without effect. -/
theorem Threads.unlink_absent (h : Threads r l) (hid : id ∉ l) : r.unlink id = r := by
  simp [Recency.unlink, h.absent id hid]

theorem Threads.unlink (h : Threads r l) (id : ObjectId) :
    Threads (r.unlink id) (l.erase id) := by
  by_cases hid : id ∈ l
  · obtain ⟨before, after, hnew, rfl, herase⟩ := List.exists_erase_eq hid
    rw [herase]
    exact h.unlink_split
  · rw [h.unlink_absent hid, List.erase_of_not_mem hid]
    exact h

/-! ## Moving to the end -/

theorem Threads.touch (h : Threads r l) (hid : id ∈ l) :
    Threads (r.touch id) (l.erase id ++ [id]) := by
  unfold Recency.touch
  by_cases htail : r.tail = some id
  · rw [if_pos htail]
    obtain ⟨init, rfl⟩ := List.getLast?_eq_some_iff.1 (h.tail ▸ htail)
    have hinit : id ∉ init := fun hm =>
      (List.nodup_append.1 h.nodup).2.2 id hm id (List.mem_singleton_self id) rfl
    rw [List.erase_append_right _ hinit, List.erase_cons_head, List.append_nil]
    exact h
  · rw [if_neg htail, if_pos (h.mem_iff.1 hid)]
    exact (h.unlink id).pushBack h.nodup.not_mem_erase

end Folio.Cache.Recency
