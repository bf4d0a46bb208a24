import Folio.Proofs.Cache.Soundness

/-! # A cache and its share of the budget

The capacity of an attached cache is kept twice, in the cache itself and as its share of the
budget.  `Budget.Moves` lists how the two may change, and **`settled_perform`** says that every
operation of a cache that is entered with its capacity is one of these moves: partial growth, a
reservation that is granted in full, or a release after shrinking, which for a tidy cache never
stops above the capacity that the cache had.
-/
namespace Folio.Cache

namespace Budget

variable {b b' : Budget} {name : String} {old n desired : Nat}
  {before after : List (String × Nat)}

/-! ## Shares -/

/-- What all shares come to does not depend on their order. -/
theorem used_eq {shares : List (String × Nat)} (h : b.shares.entries.Perm shares) :
    b.used = (shares.map (·.2)).foldr (· + ·) 0 :=
  (h.map Prod.snd).sum_nat

/-- What one cache has been given, and what the others have. -/
theorem used_eq_add (h : b.shares.entries.Perm (before ++ (name, old) :: after)) :
    b.used = old + ((before ++ after).map (·.2)).foldr (· + ·) 0 :=
  used_eq (h.trans List.perm_middle)

/-- **How a capacity moves from `old` to another one, and the budget with it.** -/
inductive Moves (b : Budget) (name : String) (old : Nat) : Nat → Budget → Prop
  | kept : Moves b name old old b
  /-- The share is set, within what remains. -/
  | raised {n : Nat} (room : n ≤ old + b.remaining) : Moves b name old n (b.setShare name n)
  /-- The share is lowered. -/
  | lowered {n : Nat} (hle : n ≤ old) : Moves b name old n (b.release name n)

/-- **A share follows the capacity that it stands for**, the other shares stay, and no more is given
out than there is. -/
theorem Moves.follows (hmoves : b.Moves name old n b')
    (hshares : b.shares.entries.Perm (before ++ (name, old) :: after)) (hused : b.used ≤ b.total) :
    b'.shares.entries.Perm (before ++ (name, n) :: after) ∧ b'.used ≤ b'.total ∧
      b'.total = b.total := by
  have hold := used_eq_add hshares
  cases hmoves with
  | kept => exact ⟨hshares, hused, rfl⟩
  | raised room =>
    have hshares' : (b.setShare name n).shares.entries.Perm (before ++ (name, n) :: after) :=
      Table.perm_insert hshares n
    have hnew := used_eq_add hshares'
    refine ⟨hshares', ?_, rfl⟩
    show (b.setShare name n).used ≤ b.total
    unfold remaining at room
    omega
  | lowered hle =>
    have hshares' : (b.release name n).shares.entries.Perm (before ++ (name, n) :: after) := by
      have hmodify := Table.perm_modify hshares (min n)
      rwa [Nat.min_eq_left hle] at hmodify
    have hnew := used_eq_add hshares'
    refine ⟨hshares', ?_, rfl⟩
    show (b.release name n).used ≤ b.total
    omega

/-- A cache whose share is its size may have what remains. -/
theorem available_eq (h : b.share? name = some old) : b.available name old = b.remaining := by
  unfold available
  rw [h, Option.getD_some, Nat.sub_self, Nat.add_zero]

theorem grow_moves (hshare : b.share? name = some old)
    (h : b.grow name old desired = some (n, b')) : b.Moves name old n b' := by
  simp only [grow, available_eq hshare] at h
  split at h
  · cases h
  · cases h
    exact .raised (Nat.min_le_right ..)

theorem reserve_moves (hshare : b.share? name = some old) (hle : old ≤ desired)
    (h : b.reserve name old desired = .ok b') : b.Moves name old desired b' := by
  simp only [reserve, available_eq hshare] at h
  split at h
  · rename_i hge
    cases h
    have heq : desired = old := Nat.le_antisymm hge hle
    rw [heq]
    exact .kept
  split at h
  · cases h
  · cases h
    exact .raised (by omega)

/-- A cache that is entered anew gets its share out of what remains. -/
theorem register_eq (hfresh : b.share? name = none) (h : b.register name n = .ok b') :
    n ≤ b.remaining ∧ b' = b.setShare name n := by
  have havailable : b.available name 0 = b.remaining := by
    unfold available
    rw [hfresh]
    rfl
  simp only [register, havailable] at h
  split at h
  · cases h
  · cases h
    exact ⟨by omega, rfl⟩

end Budget

/-! ## Operations -/

variable {σ α : Type}

/-- What the budget knows of a cache, what the cache knows of the budget, and the budget. -/
def standing (c : Cache σ α) (w : Workspace σ α) : String × Bool × Nat × Budget :=
  (c.name, c.attached, c.capacity, w.budget)

/-- The cache keeps its name and stays attached or unattached; if it is attached, its capacity and
its share move together. -/
structure Settled (c : Cache σ α) (w : Workspace σ α) (c' : Cache σ α) (w' : Workspace σ α) :
    Prop where
  name_eq : c'.name = c.name
  attached_eq : c'.attached = c.attached
  moves : c.attached = true → w.budget.share? c.name = some c.capacity →
    w.budget.Moves c.name c.capacity c'.capacity w'.budget

variable {c c₁ c' : Cache σ α} {w w₁ w' : Workspace σ α}

theorem settled_of_standing (h : standing c' w' = standing c w) : Settled c w c' w' := by
  simp only [standing, Prod.mk.injEq] at h
  obtain ⟨hname, hattached, hcapacity, hbudget⟩ := h
  exact ⟨hname, hattached, fun _ _ => by rw [hcapacity, hbudget]; exact .kept⟩

/-- What happens first does not count if it leaves the standing alone. -/
theorem Settled.after (h : Settled c₁ w₁ c' w') (hstanding : standing c₁ w₁ = standing c w) :
    Settled c w c' w' := by
  simp only [standing, Prod.mk.injEq] at hstanding
  obtain ⟨hname, hattached, hcapacity, hbudget⟩ := hstanding
  refine ⟨h.name_eq.trans hname, h.attached_eq.trans hattached, fun hatt hshare => ?_⟩
  rw [← hname, ← hcapacity, ← hbudget] at hshare ⊢
  exact h.moves (hattached.trans hatt) hshare

theorem settled_grow (c : Cache σ α) (w : Workspace σ α) :
    Settled c w (c.grow w).2.1 (c.grow w).2.2 := by
  rcases grow_cases c w with hgrow | ⟨n, b, -, -, hgranted, -, hgrow⟩
  · rw [hgrow]
    exact settled_of_standing rfl
  · rw [hgrow]
    exact ⟨rfl, rfl, fun hatt hshare => Budget.grow_moves hshare (hgranted hatt)⟩

variable [Cacheable α]

theorem budget_tryUnload (c : Cache σ α) (h : Handle) (w : Workspace σ α) :
    (c.tryUnload h w).2.budget = w.budget := by
  unfold tryUnload
  split <;> rfl

theorem Refused.budget_eq (h : Refused c w w') : w'.budget = w.budget := by
  induction h with
  | nobody => rfl
  | @next w₁ w₂ id h before entry refusal ih =>
    have hstep := budget_tryUnload c h w₁
    rw [refusal] at hstep
    exact hstep.trans ih

theorem Finds.budget_eq {exclude : Option ObjectId} {id : ObjectId} {h : Handle}
    (hfinds : Finds c exclude w id h w') : w'.budget = w.budget := by
  obtain ⟨w₀, hrefused, htry⟩ := hfinds.agreed
  have hstep := budget_tryUnload c h w₀
  rw [htry] at hstep
  exact hstep.trans hrefused.budget_eq

/-- Evictions are no business of the budget. -/
theorem standing_evictionPass (c : Cache σ α) (exclude : Option ObjectId) (w : Workspace σ α) :
    standing (c.evictionPass exclude w).cache (c.evictionPass exclude w).workspace =
      standing c w := by
  refine evictionPass_induction (P := fun c' w' => standing c' w' = standing c w)
    (fun w' hrefused => ?_) fun id h w' _ hfinds => ?_
  · simp only [standing, hrefused.budget_eq]
  · simp only [standing, hfinds.budget_eq]
    rfl

theorem standing_evictUpTo (c : Cache σ α) (w : Workspace σ α) (count : Nat) :
    standing (c.evictUpTo w count).cache (c.evictUpTo w count).workspace = standing c w := by
  refine evictUpTo_induction (P := fun c' w' => standing c' w' = standing c w)
    (fun c' w₁ w₂ heq hrefused => ?_) (fun c' w₁ id h w₂ heq _ hfinds => ?_) rfl count
  · rw [← heq]
    simp only [standing, hrefused.budget_eq]
  · rw [← heq]
    simp only [standing, hfinds.budget_eq]
    rfl

/-- Whichever way room is made, the cache grows at most once. -/
theorem settled_makeRoom (c : Cache σ α) (id : ObjectId) (h : Handle) (w : Workspace σ α) :
    Settled c w (c.makeRoom id h w).cache (c.makeRoom id h w).workspace := by
  have hpass := standing_evictionPass c (some id) w
  have hgrow := (settled_grow (c.evictionPass (some id) w).cache
    (c.evictionPass (some id) w).workspace).after hpass
  unfold makeRoom
  dsimp only
  split
  · split
    · exact hgrow
    · exact settled_of_standing hpass
  · split
    · rename_i cache workspace heq
      rwa [heq] at hgrow
    · rename_i cache workspace heq
      rw [heq] at hgrow
      exact ⟨hgrow.name_eq, hgrow.attached_eq, hgrow.moves⟩

theorem settled_add (c : Cache σ α) (h : Handle) (refCount : UInt32) (w : Workspace σ α) :
    Settled c w (c.add h refCount w).cache (c.add h refCount w).workspace := by
  rcases add_cases c h refCount w with ⟨-, hadd⟩ | ⟨id, w', -, -, rfl, ⟨previous, -, hadd⟩ | hadd⟩
  · rw [hadd]
    exact settled_of_standing rfl
  · rw [hadd]
    refine settled_of_standing ?_
    unfold replace standing
    dsimp only
    split
    · split <;> rfl
    · rfl
  · obtain ⟨-, ⟨-, hadd⟩ | ⟨-, hadd⟩⟩ := hadd
    · rw [hadd]
      exact settled_of_standing rfl
    · rw [hadd]
      exact (settled_makeRoom _ id h _).after rfl

omit [Cacheable α] in
/-- A higher capacity is reserved as a whole. -/
theorem settled_enlarge {capacity : Nat} (hle : c.capacity ≤ capacity)
    (h : c.enlarge capacity w = .ok (c', w')) : Settled c w c' w' := by
  unfold enlarge at h
  cases hatt : c.attached with
  | false =>
    rw [hatt] at h
    cases h
    exact ⟨rfl, hatt.symm, fun htrue => absurd (hatt.symm.trans htrue) Bool.false_ne_true⟩
  | true =>
    rw [hatt, if_pos rfl] at h
    cases hreserve : w.budget.reserve c.name c.capacity capacity with
    | error e =>
      rw [hreserve] at h
      cases h
    | ok b =>
      rw [hreserve] at h
      cases h
      exact ⟨rfl, hatt.symm, fun _ hshare => Budget.reserve_moves hshare hle hreserve⟩

/-- A tidy cache never shrinks to more than it was. -/
theorem settled_shrink (ht : Tidy c) {capacity : Nat} (hlt : capacity < c.capacity)
    (w : Workspace σ α) :
    Settled c w (c.shrink capacity w).cache (c.shrink capacity w).workspace := by
  have hpasses := standing_evictUpTo c w (c.size - capacity)
  simp only [standing, Prod.mk.injEq] at hpasses
  obtain ⟨hname, hattached, -, hbudget⟩ := hpasses
  have hsize := (ht.toSound.evictUpTo w (c.size - capacity)).size_le
  have hold := ht.size_le
  refine ⟨hname, hattached, fun hatt _ => ?_⟩
  simp only [shrink, hatt, if_true, hbudget]
  exact .lowered (by show max capacity _ ≤ c.capacity; omega)

theorem settled_resize (ht : Tidy c) (capacity : Nat) (w : Workspace σ α) :
    Settled c w (c.resize capacity w).cache (c.resize capacity w).workspace := by
  unfold resize
  split
  · rename_i hle
    split
    · rename_i cache workspace henlarge
      exact settled_enlarge hle henlarge
    · exact settled_of_standing rfl
  · rename_i hlt
    exact settled_shrink ht (Nat.lt_of_not_le hlt) w

/-- **Every operation of a tidy cache keeps its capacity and its share together.** -/
theorem settled_perform (ht : Tidy c) (w : Workspace σ α) (op : Operation) :
    Settled c w (c.perform w op).1 (c.perform w op).2 := by
  cases op with
  | get id =>
    refine settled_of_standing ?_
    simp only [perform, Cache.get]
    split <;> rfl
  | add h refCount => exact settled_add c h refCount w
  | remove id =>
    refine settled_of_standing ?_
    simp only [perform, Cache.remove]
    split <;> rfl
  | evict => exact settled_of_standing (standing_evictionPass c none w)
  | resize capacity => exact settled_resize ht capacity w
  | setOperational operational => exact settled_of_standing rfl

end Folio.Cache
