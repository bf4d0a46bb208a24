import Mathlib.Data.List.DropRight
import Folio.Cache.Accounting

/-! # Thrashing is covered by evictions

The window of recent evictions keeps its identities twice, in a queue to drop the oldest from and as
a set to look them up in.  Both are changed in three places: an eviction enters an identity unless
it is there already, the limit pushes others out, and an identity that is cached again is taken from
the middle.  `EvictionWindow.Neat` says that they stay the same identities, each of them once, and
no more than the limit.

What keeps thrashing below the evictions is not a step but a debt.  An identity in the queue stands
for an eviction that may still turn out to be thrashing, and it pays for that only once, since it
leaves the queue then.  So it is thrashing and queue together that the evictions cover
(`Accounting.Covered`).  An eviction that is not entered, because there is no window or because the
identity is waiting in it, only widens the margin.  And no count is larger than the number of notes
(`Accounting.evictions_record`), so that a machine word holds them all.
-/
namespace Folio.Cache

namespace EvictionWindow

variable {w : EvictionWindow} {id : ObjectId}

/-! ## The window -/

/-- **Queue and set hold the same identities**, each once, and not too many. -/
structure Neat (w : EvictionWindow) : Prop where
  perm : w.members.Perm w.queue
  nodup : w.queue.Nodup
  length_le : w.queue.length ≤ w.limit

theorem neat_empty (limit : Nat) : Neat { limit } where
  perm := .refl []
  nodup := List.nodup_nil
  length_le := Nat.zero_le limit

theorem Neat.mem_iff (h : w.Neat) : id ∈ w.members ↔ id ∈ w.queue := h.perm.mem_iff

/-- Without a limit above zero there is nothing in the window. -/
theorem Neat.limit_pos (h : w.Neat) (hid : id ∈ w.queue) : 0 < w.limit :=
  Nat.lt_of_lt_of_le (List.length_pos_of_mem hid) h.length_le

section Trim
variable (limit : Nat) (queue members : List ObjectId)

@[simp] theorem trim_limit : (trim limit queue members).limit = limit := by
  fun_induction trim limit queue members with
  | case1 => rfl
  | case2 oldest queue members _ ih => exact ih
  | case3 => rfl

/-- The oldest identities go, as many as are too many. -/
theorem trim_queue : (trim limit queue members).queue = queue.drop (queue.length - limit) := by
  fun_induction trim limit queue members with
  | case1 => exact List.drop_nil.symm
  | case2 oldest queue members hmore ih =>
    have hone : (oldest :: queue).length - limit = queue.length - limit + 1 := by
      rw [List.length_cons] at hmore ⊢
      omega
    rw [ih, hone, List.drop_succ_cons]
  | case3 oldest queue members hfits =>
    rw [Nat.sub_eq_zero_of_le (Nat.le_of_not_lt hfits), List.drop_zero]

variable {queue members}

/-- What leaves the queue leaves the set. -/
theorem perm_trim (h : members.Perm queue) :
    (trim limit queue members).members.Perm (trim limit queue members).queue := by
  fun_induction trim limit queue members with
  | case1 => exact h
  | case2 oldest queue members _ ih =>
    have herase := h.erase oldest
    rw [List.erase_cons_head] at herase
    exact ih herase
  | case3 => exact h

end Trim

@[simp] theorem push_limit (w : EvictionWindow) (id : ObjectId) : (w.push id).limit = w.limit := by
  unfold push
  split
  · rfl
  · exact trim_limit ..

@[simp] theorem take_limit (w : EvictionWindow) (id : ObjectId) :
    (w.take id).2.limit = w.limit := by
  unfold take
  split <;> rfl

/-- An identity that is in the window keeps its place, and so does every other one if there is no
window.  Otherwise it comes last, and at most one goes. -/
theorem Neat.push_queue (h : w.Neat) (id : ObjectId) :
    (w.push id).queue =
      if w.limit = 0 ∨ id ∈ w.queue then w.queue
      else (w.queue ++ [id]).drop (w.queue.length + 1 - w.limit) := by
  unfold push
  simp only [h.mem_iff]
  split
  · rfl
  · rw [trim_queue, List.length_append, List.length_singleton]

theorem Neat.push (h : w.Neat) (id : ObjectId) : (w.push id).Neat := by
  unfold EvictionWindow.push
  split
  · exact h
  rename_i hnew
  rw [not_or, h.mem_iff] at hnew
  have hnodup : (w.queue ++ [id]).Nodup :=
    List.nodup_append.2 ⟨h.nodup, List.pairwise_singleton _ id, fun a ha b hb hab =>
      hnew.2 (List.mem_singleton.1 hb ▸ hab ▸ ha)⟩
  have hperm : (id :: w.members).Perm (w.queue ++ [id]) :=
    (h.perm.cons id).trans (List.perm_append_singleton id w.queue).symm
  refine ⟨perm_trim _ hperm, ?_, ?_⟩
  · rw [trim_queue]
    exact hnodup.sublist (List.drop_sublist _ _)
  · rw [trim_queue, trim_limit, List.length_drop]
    omega

/-- An eviction makes the queue longer by one identity at most. -/
theorem Neat.length_push (h : w.Neat) (id : ObjectId) :
    (w.push id).queue.length ≤ w.queue.length + 1 := by
  rw [h.push_queue]
  split
  · omega
  · rw [List.length_drop, List.length_append, List.length_singleton]
    omega

/-- **An identity that is evicted is in the window**, if there is one. -/
theorem Neat.mem_push_iff (h : w.Neat) : id ∈ (w.push id).queue ↔ 0 < w.limit := by
  rw [h.push_queue]
  split
  · rename_i hkept
    refine ⟨h.limit_pos, fun hpos => hkept.resolve_left (Nat.ne_of_gt hpos)⟩
  · rename_i hnew
    rw [not_or] at hnew
    have hdrop : w.queue.length + 1 - w.limit ≤ w.queue.length := by omega
    rw [List.drop_append_of_le_length hdrop]
    simp [Nat.pos_of_ne_zero hnew.1]

theorem Neat.take_fst (h : w.Neat) (id : ObjectId) : (w.take id).1 = decide (id ∈ w.queue) := by
  unfold take
  simp only [h.mem_iff]
  split <;> simp [*]

theorem Neat.take_queue (h : w.Neat) (id : ObjectId) :
    (w.take id).2.queue = w.queue.erase id := by
  unfold take
  simp only [h.mem_iff]
  split
  · rw [h.nodup.erase_eq_filter]
    exact List.filter_congr fun other _ => by grind
  · rename_i hid
    exact (List.erase_of_not_mem hid).symm

theorem Neat.take (h : w.Neat) (id : ObjectId) : (w.take id).2.Neat := by
  have hqueue := h.take_queue id
  refine ⟨?_, ?_, ?_⟩
  · rw [hqueue]
    unfold EvictionWindow.take
    split
    · exact h.perm.erase id
    · rename_i hid
      rw [List.erase_of_not_mem (mt h.mem_iff.2 hid)]
      exact h.perm
  · rw [hqueue]
    exact h.nodup.erase id
  · rw [hqueue, take_limit]
    exact Nat.le_trans List.length_erase_le h.length_le

end EvictionWindow

namespace Accounting

variable {a : Accounting} {id : ObjectId}

/-! ## The counts -/

/-- **The evictions cover what came back and what may still come back**, since the window was last
cleared and altogether. -/
structure Covered (a : Accounting) : Prop where
  neat : a.window.Neat
  recent_le : a.windowThrashing + a.window.queue.length ≤ a.windowEvictions
  total_le : a.thrashing + a.window.queue.length ≤ a.evictions

theorem covered_new (limit : Nat) : (new limit).Covered where
  neat := EvictionWindow.neat_empty limit
  recent_le := Nat.le_refl 0
  total_le := Nat.le_refl 0

/-- An eviction pays for the identity that it enters. -/
theorem Covered.recordEviction (h : a.Covered) (id : ObjectId) :
    (a.recordEviction id).Covered := by
  obtain ⟨hneat, hrecent, htotal⟩ := h
  have hlength : (a.recordEviction id).window.queue.length ≤ a.window.queue.length + 1 :=
    hneat.length_push id
  refine ⟨hneat.push id, ?_, ?_⟩
  · show a.windowThrashing + _ ≤ a.windowEvictions + 1
    omega
  · show a.thrashing + _ ≤ a.evictions + 1
    omega

/-- An identity that is cached counts as thrashing if it is in the queue, and leaves it. -/
theorem recordInsert_eq (hneat : a.window.Neat) (id : ObjectId) :
    a.recordInsert id =
      if id ∈ a.window.queue then
        { a with
          thrashing := a.thrashing + 1
          windowThrashing := a.windowThrashing + 1
          window := (a.window.take id).2 }
      else a := by
  have hfound := hneat.take_fst id
  unfold recordInsert
  cases htake : a.window.take id with
  | mk found window =>
    rw [htake] at hfound
    by_cases hid : id ∈ a.window.queue <;> simp_all

theorem Covered.recordInsert (h : a.Covered) (id : ObjectId) : (a.recordInsert id).Covered := by
  obtain ⟨hneat, hrecent, htotal⟩ := h
  rw [recordInsert_eq hneat]
  split
  · rename_i hid
    -- what thrashing gains the queue loses
    have hlength : (a.window.take id).2.queue.length + 1 = a.window.queue.length := by
      rw [hneat.take_queue, List.length_erase_of_mem hid]
      have := List.length_pos_of_mem hid
      omega
    refine ⟨hneat.take id, ?_, ?_⟩
    · show a.windowThrashing + 1 + (a.window.take id).2.queue.length ≤ a.windowEvictions
      omega
    · show a.thrashing + 1 + (a.window.take id).2.queue.length ≤ a.evictions
      omega
  · exact ⟨hneat, hrecent, htotal⟩

/-- Whatever was in the window no longer counts. -/
theorem Covered.resetWindow (h : a.Covered) (limit : Nat) : (a.resetWindow limit).Covered where
  neat := EvictionWindow.neat_empty limit
  recent_le := Nat.le_refl 0
  total_le := Nat.le_trans (Nat.le_add_right _ _) h.total_le

/-! ## Runs -/

/-- What an accounting is told. -/
inductive Note where
  | hit
  | miss
  | eviction (id : ObjectId)
  | insertion (id : ObjectId)
  | reset (limit : Nat)

namespace Note

def isEviction : Note → Bool
  | eviction _ => true
  | _ => false

def isReset : Note → Bool
  | reset _ => true
  | _ => false

/-- The limit of the window behind a note. -/
def limit (before : Nat) : Note → Nat
  | reset limit => limit
  | _ => before

end Note

def note (a : Accounting) : Note → Accounting
  | .hit => a.recordHit
  | .miss => a.recordMiss
  | .eviction id => a.recordEviction id
  | .insertion id => a.recordInsert id
  | .reset limit => a.resetWindow limit

/-- The accounting after several notes. -/
def record (a : Accounting) (notes : List Note) : Accounting := notes.foldl note a

theorem record_append (a : Accounting) (notes : List Note) (n : Note) :
    a.record (notes ++ [n]) = (a.record notes).note n := by
  rw [record, List.foldl_append]
  rfl

theorem Covered.note (h : a.Covered) (n : Note) : (a.note n).Covered := by
  cases n with
  | hit => exact ⟨h.neat, h.recent_le, h.total_le⟩
  | miss => exact ⟨h.neat, h.recent_le, h.total_le⟩
  | eviction id => exact h.recordEviction id
  | insertion id => exact h.recordInsert id
  | reset limit => exact h.resetWindow limit

theorem Covered.record (h : a.Covered) (notes : List Note) : (a.record notes).Covered := by
  induction notes generalizing a with
  | nil => exact h
  | cons n notes ih => exact ih (h.note n)

/-- An insertion changes only thrashing and the identities in the window. -/
theorem recordInsert_frame (a : Accounting) (id : ObjectId) :
    (a.recordInsert id).evictions = a.evictions ∧
      (a.recordInsert id).windowEvictions = a.windowEvictions ∧
      (a.recordInsert id).window.limit = a.window.limit := by
  have hlimit := a.window.take_limit id
  unfold Accounting.recordInsert
  cases htake : a.window.take id with
  | mk found window =>
    rw [htake] at hlimit
    cases found with
    | true => exact ⟨rfl, rfl, hlimit⟩
    | false => exact ⟨rfl, rfl, rfl⟩

/-- What a note does to the evictions and to the size of the window. -/
theorem evictions_note (a : Accounting) (n : Note) :
    (a.note n).evictions = a.evictions + [n].countP Note.isEviction ∧
      (a.note n).windowEvictions =
        (if n.isReset then 0 else a.windowEvictions + [n].countP Note.isEviction) ∧
      (a.note n).window.limit = n.limit a.window.limit := by
  cases n with
  | hit => exact ⟨rfl, rfl, rfl⟩
  | miss => exact ⟨rfl, rfl, rfl⟩
  | eviction id => exact ⟨rfl, rfl, a.window.push_limit id⟩
  | insertion id => exact a.recordInsert_frame id
  | reset limit => exact ⟨rfl, rfl, rfl⟩

/-- **What the evictions of a run come to**: all of them, and those since the last reset. -/
theorem evictions_record (limit : Nat) (notes : List Note) :
    ((new limit).record notes).evictions = notes.countP Note.isEviction ∧
      ((new limit).record notes).windowEvictions =
        (notes.rtakeWhile (!·.isReset)).countP Note.isEviction ∧
      ((new limit).record notes).window.limit = notes.foldl Note.limit limit := by
  induction notes using List.reverseRecOn with
  | nil => exact ⟨rfl, rfl, rfl⟩
  | append_singleton notes n ih =>
    obtain ⟨hevictions, hrecent, hlimit⟩ := ih
    obtain ⟨hevictions', hrecent', hlimit'⟩ := ((new limit).record notes).evictions_note n
    rw [record_append, hevictions', hrecent', hlimit', hevictions, hrecent, hlimit]
    refine ⟨List.countP_append.symm, ?_, ?_⟩
    · rw [List.rtakeWhile_concat]
      cases hreset : n.isReset with
      | true => rfl
      | false => exact List.countP_append.symm
    · rw [List.foldl_append]
      rfl

/-- **Thrashing never exceeds evictions.**  Whatever an accounting is told, in whatever order and
with whatever sizes of the window: set and queue hold the same identities, each once, no more than
the limit that was given last; and evictions cover thrashing together with the queue, both since the
last reset, whose evictions are those noted behind it, and altogether.

The window is not empty for that.  An identity that is evicted is in the queue unless the limit is
zero, and one that is cached counts as thrashing exactly if it is there, and leaves it. -/
theorem thrashing_covered (limit : Nat) (notes : List Note) :
    let a := (new limit).record notes
    ((∀ id, id ∈ a.window.members ↔ id ∈ a.window.queue) ∧ a.window.members.Nodup ∧
      a.window.queue.Nodup ∧ a.window.queue.length ≤ a.window.limit ∧
      a.window.limit = notes.foldl Note.limit limit) ∧
    (a.windowThrashing + a.window.queue.length ≤ a.windowEvictions ∧
      a.windowThrashing ≤ a.windowEvictions ∧
      a.windowEvictions = (notes.rtakeWhile (!·.isReset)).countP Note.isEviction) ∧
    (a.thrashing + a.window.queue.length ≤ a.evictions ∧ a.thrashing ≤ a.evictions ∧
      a.evictions = notes.countP Note.isEviction) ∧
    ∀ id, (id ∈ (a.recordEviction id).window.queue ↔ 0 < a.window.limit) ∧
      (a.recordInsert id).thrashing = a.thrashing + (if id ∈ a.window.queue then 1 else 0) ∧
      (a.recordInsert id).windowThrashing =
        a.windowThrashing + (if id ∈ a.window.queue then 1 else 0) ∧
      (a.recordInsert id).window.queue = a.window.queue.erase id := by
  intro a
  have hcovered : a.Covered := (covered_new limit).record notes
  have hneat := hcovered.neat
  obtain ⟨hevictions, hrecent, hlimit⟩ := evictions_record limit notes
  have hmembers : a.window.members.Nodup := hneat.perm.nodup_iff.2 hneat.nodup
  refine ⟨⟨fun _ => hneat.mem_iff, hmembers, hneat.nodup, hneat.length_le, hlimit⟩,
    ⟨hcovered.recent_le, Nat.le_trans (Nat.le_add_right _ _) hcovered.recent_le, hrecent⟩,
    ⟨hcovered.total_le, Nat.le_trans (Nat.le_add_right _ _) hcovered.total_le, hevictions⟩,
    fun id => ⟨hneat.mem_push_iff, ?_⟩⟩
  rw [recordInsert_eq hneat]
  by_cases hid : id ∈ a.window.queue
  · simp only [if_pos hid]
    exact ⟨trivial, trivial, hneat.take_queue id⟩
  · simp only [if_neg hid]
    exact ⟨rfl, rfl, (List.erase_of_not_mem hid).symm⟩

/-- In a window of two, the first of three evictions is forgotten. -/
example :
    ((new 2).record [.eviction 1, .eviction 2, .eviction 3, .insertion 1, .insertion 3]).thrashing =
      1 := by decide

end Accounting
end Folio.Cache
