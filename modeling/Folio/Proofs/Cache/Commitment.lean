import Mathlib.Data.List.Induction
import Folio.Proofs.Cache.Shares

/-! # What a budget commits itself to

A budget reckons what it can give out from the shares that it knows, but where a cache that
grows ends up from the size that the cache states.  A cache that states less than its share does
no harm; one that states more may be given what is not there, because it lost its share to a
namesake or was struck out.  **`Budget.committed_within_iff`** says that this is the only way:
whatever is asked and in whatever order, the shares stay within the total exactly as long as no
request is granted that overstates the size of its cache.  Whatever is declined leaves the budget
as it was.
-/
namespace Folio.Cache.Budget

/-! ## Requests -/

/-- What can be asked of a budget. -/
inductive Request where
  | register (name : String) (share : Nat)
  | unregister (name : String)
  | grow (name : String) (current desired : Nat)
  | reserve (name : String) (current desired : Nat)
  | release (name : String) (share : Nat)
deriving DecidableEq, Repr

inductive Answer where
  | done
  /-- The size that a cache may grow to, or the share that was struck out. -/
  | number (n : Nat)
  | nothing
  | refused (e : Error)
deriving DecidableEq, Repr

/-- Nothing is granted, or there was nothing to strike out. -/
def Answer.Declines : Answer → Prop
  | .nothing | .refused _ => True
  | .done | .number _ => False

instance (answer : Answer) : Decidable answer.Declines := by
  unfold Answer.Declines
  split <;> infer_instance

/-- The answer to a request, and the budget after it. -/
def perform (b : Budget) : Request → Answer × Budget
  | .register name share =>
    match b.register name share with
    | .ok after => (.done, after)
    | .error e => (.refused e, b)
  | .unregister name =>
    match b.share? name with
    | some share => (.number share, b.unregister name)
    | none => (.nothing, b.unregister name)
  | .grow name current desired =>
    match b.grow name current desired with
    | some (granted, after) => (.number granted, after)
    | none => (.nothing, b)
  | .reserve name current desired =>
    match b.reserve name current desired with
    | .ok after => (.done, after)
    | .error e => (.refused e, b)
  | .release name share => (.done, b.release name share)

/-- The budget after some requests. -/
def after (b : Budget) (requests : List Request) : Budget :=
  requests.foldl (fun b request => (b.perform request).2) b

variable {b b' : Budget} {name : String} {current desired n : Nat}

theorem after_append (b : Budget) (requests : List Request) (request : Request) :
    b.after (requests ++ [request]) = ((b.after requests).perform request).2 :=
  List.foldl_append

/-! ## Shares that change -/

/-- What a cache has been given. -/
def given (b : Budget) (name : String) : Nat := (b.share? name).getD 0

theorem available_given (b : Budget) (name : String) (current : Nat) :
    b.available name current = b.remaining + (b.given name - current) := rfl

/-- A share is set in place of the one the cache had. -/
theorem used_setShare (b : Budget) (name : String) (n : Nat) :
    (b.setShare name n).used + b.given name = b.used + n := by
  unfold given
  cases hshare : b.share? name with
  | none =>
    have hperm : (b.setShare name n).shares.entries.Perm ([] ++ (name, n) :: b.shares.entries) :=
      Table.perm_insert_new hshare n
    have hnew := used_eq_add hperm
    have hold := used_eq (List.Perm.refl b.shares.entries)
    rw [List.nil_append, ← hold] at hnew
    simp only [Option.getD_none]
    omega
  | some old =>
    obtain ⟨front, back, hentries⟩ := List.append_of_mem ((Table.mem_entries_iff ..).2 hshare)
    have hperm := List.Perm.of_eq hentries
    have hold := used_eq_add hperm
    have hnew := used_eq_add (b := b.setShare name n) (Table.perm_insert hperm n)
    simp only [Option.getD_some]
    omega

/-- A cache that is not entered cannot be struck out. -/
theorem unregister_absent (h : b.share? name = none) : b.unregister name = b := by
  unfold unregister
  rw [Table.erase_absent h]

theorem used_unregister_le (b : Budget) (name : String) : (b.unregister name).used ≤ b.used := by
  cases hshare : b.share? name with
  | none => exact Nat.le_of_eq (congrArg used (unregister_absent hshare))
  | some share =>
    obtain ⟨front, back, hentries⟩ := List.append_of_mem ((Table.mem_entries_iff ..).2 hshare)
    have hperm := List.Perm.of_eq hentries
    have hold := used_eq_add hperm
    have hnew := used_eq (b := b.unregister name) (Table.perm_erase hperm)
    omega

theorem used_release_le (b : Budget) (name : String) (n : Nat) :
    (b.release name n).used ≤ b.used := by
  cases hshare : b.share? name with
  | none =>
    have hsame : b.release name n = b := by
      unfold release
      rw [Table.modify_absent hshare]
    exact Nat.le_of_eq (congrArg used hsame)
  | some share =>
    obtain ⟨front, back, hentries⟩ := List.append_of_mem ((Table.mem_entries_iff ..).2 hshare)
    have hperm := List.Perm.of_eq hentries
    have hold := used_eq_add hperm
    have hnew := used_eq_add (b := b.release name n) (Table.perm_modify hperm (min n))
    omega

/-! ## What is granted -/

theorem register_ok (h : b.register name n = .ok b') :
    n ≤ b.remaining + b.given name ∧ b' = b.setShare name n := by
  unfold register at h
  dsimp only at h
  split at h
  · cases h
  · rename_i hroom
    cases h
    rw [available_given, Nat.sub_zero] at hroom
    exact ⟨Nat.le_of_not_lt hroom, rfl⟩

theorem grow_some (h : b.grow name current desired = some (n, b')) :
    current < desired ∧ 0 < b.available name current ∧
      n = min desired (current + b.available name current) ∧ b' = b.setShare name n := by
  unfold grow at h
  dsimp only at h
  split at h
  · cases h
  · rename_i hroom
    cases h
    exact ⟨by omega, by omega, rfl, rfl⟩

/-- A reservation of no more than the cache says it has is granted and changes nothing. -/
theorem reserve_ok (h : b.reserve name current desired = .ok b') :
    desired ≤ current ∧ b' = b ∨
      current < desired ∧ desired ≤ current + b.available name current ∧
        b' = b.setShare name desired := by
  unfold reserve at h
  dsimp only at h
  split at h
  · rename_i hle
    cases h
    exact .inl ⟨hle, rfl⟩
  split at h
  · cases h
  · cases h
    exact .inr ⟨by omega, by omega, rfl⟩

/-- **What is declined changes nothing.** -/
theorem perform_of_declines (request : Request) (h : (b.perform request).1.Declines) :
    (b.perform request).2 = b := by
  cases request with
  | register name share =>
    simp only [perform] at h ⊢
    split at h
    · exact h.elim
    · rfl
  | unregister name =>
    simp only [perform] at h ⊢
    split at h
    · exact h.elim
    · rename_i habsent
      exact unregister_absent habsent
  | grow name current desired =>
    simp only [perform] at h ⊢
    split at h
    · exact h.elim
    · rfl
  | reserve name current desired =>
    simp only [perform] at h ⊢
    split at h
    · exact h.elim
    · rfl
  | release name share => exact h.elim

/-! ## Requests that overdraw -/

/-- A cache states a size above its share, to get more than its share and what remains. -/
def Overstates (b : Budget) : Request → Prop
  | .grow name current desired | .reserve name current desired =>
    b.given name < current ∧ current < desired ∧ b.given name + b.remaining < desired
  | .register .. | .unregister _ | .release .. => False

instance (b : Budget) (request : Request) : Decidable (b.Overstates request) := by
  unfold Overstates
  split <;> infer_instance

/-- The budget grants a request that overstates the size of its cache. -/
def Overdraws (b : Budget) (request : Request) : Prop :=
  b.Overstates request ∧ ¬(b.perform request).1.Declines

instance (b : Budget) (request : Request) : Decidable (b.Overdraws request) :=
  inferInstanceAs (Decidable (_ ∧ _))

/-- What was granted overdraws if it overstates. -/
theorem overdraws_iff {request : Request} {answer : Answer}
    (h : b.perform request = (answer, b')) (hgranted : ¬answer.Declines) :
    b.Overdraws request ↔ b.Overstates request := by
  unfold Overdraws
  rw [h]
  exact and_iff_left hgranted

/-- **What a request can do.**  Either nothing is added to the shares, or one share is set, and
whether there is room for it depends on whether the request overdraws. -/
theorem perform_cases (b : Budget) (request : Request) :
    ((b.perform request).2.total = b.total ∧ (b.perform request).2.used ≤ b.used ∧
        ¬b.Overdraws request) ∨
      ∃ name n, (b.perform request).2 = b.setShare name n ∧
        (n ≤ b.given name + b.remaining ↔ ¬b.Overdraws request) := by
  by_cases hdeclines : (b.perform request).1.Declines
  · rw [perform_of_declines request hdeclines]
    exact .inl ⟨rfl, Nat.le_refl _, fun hover => hover.2 hdeclines⟩
  rcases hperform : b.perform request with ⟨answer, after⟩
  rw [hperform] at hdeclines
  rw [overdraws_iff hperform hdeclines]
  cases request with
  | register name share =>
    simp only [perform] at hperform
    split at hperform <;> cases hperform
    · rename_i hregister
      obtain ⟨hroom, rfl⟩ := register_ok hregister
      exact .inr ⟨name, share, rfl, iff_of_true (by omega) id⟩
    · exact (hdeclines trivial).elim
  | unregister name =>
    simp only [perform] at hperform
    split at hperform <;> cases hperform
    all_goals exact .inl ⟨rfl, used_unregister_le b name, id⟩
  | grow name current desired =>
    simp only [perform] at hperform
    split at hperform <;> cases hperform
    · rename_i granted hgrow
      obtain ⟨hlt, hroom, hgranted, rfl⟩ := grow_some hgrow
      rw [available_given] at hroom hgranted
      refine .inr ⟨name, granted, rfl, ?_⟩
      simp only [Overstates]
      omega
    · exact (hdeclines trivial).elim
  | reserve name current desired =>
    simp only [perform] at hperform
    split at hperform <;> cases hperform
    · rename_i hreserve
      obtain ⟨hle, rfl⟩ | ⟨hlt, hroom, rfl⟩ := reserve_ok hreserve
      · refine .inl ⟨rfl, Nat.le_refl _, fun hover => ?_⟩
        exact absurd hover.2.1 (Nat.not_lt.2 hle)
      · rw [available_given] at hroom
        refine .inr ⟨name, desired, rfl, ?_⟩
        simp only [Overstates]
        omega
    · exact (hdeclines trivial).elim
  | release name share =>
    cases hperform
    exact .inl ⟨rfl, used_release_le b name share, id⟩

theorem total_perform (b : Budget) (request : Request) : (b.perform request).2.total = b.total := by
  obtain ⟨htotal, -⟩ | ⟨name, n, hset, -⟩ := b.perform_cases request
  · exact htotal
  · rw [hset]
    rfl

/-- **A request keeps the shares within the total unless it overdraws.** -/
theorem within_perform_iff (h : b.used ≤ b.total) (request : Request) :
    (b.perform request).2.used ≤ b.total ↔ ¬b.Overdraws request := by
  obtain ⟨-, hle, hspares⟩ | ⟨name, n, hset, hroom⟩ := b.perform_cases request
  · exact iff_of_true (Nat.le_trans hle h) hspares
  · have hused := used_setShare b name n
    rw [hset, ← hroom]
    unfold remaining
    omega

/-! ## One request after another -/

theorem total_after (b : Budget) (requests : List Request) :
    (b.after requests).total = b.total := by
  induction requests using List.reverseRecOn with
  | nil => rfl
  | append_singleton requests request ih => rw [after_append, total_perform, ih]

/-- A budget that nothing has been asked of. -/
def opened (total : Nat) : Budget := { total }

/-- **How far a budget can be trusted.**  Whatever is asked of it, the shares are within the total
after every request exactly as long as none overdraws; and whatever it declines, in any state,
leaves the shares as they were. -/
theorem committed_within_iff (total : Nat) (requests : List Request) :
    ((∀ asked, asked <+: requests → ((opened total).after asked).used ≤ total) ↔
        ∀ asked request, asked ++ [request] <+: requests →
          ¬((opened total).after asked).Overdraws request) ∧
      ∀ asked request, asked ++ [request] <+: requests →
        (((opened total).after asked).perform request).1.Declines →
          (opened total).after (asked ++ [request]) = (opened total).after asked := by
  have hstep (asked : List Request) (request : Request)
      (h : ((opened total).after asked).used ≤ total) :
      ((opened total).after (asked ++ [request])).used ≤ total ↔
        ¬((opened total).after asked).Overdraws request := by
    have htotal : ((opened total).after asked).total = total := total_after _ asked
    have hwithin := within_perform_iff (Nat.le_trans h (Nat.le_of_eq htotal.symm)) request
    rwa [htotal, ← after_append] at hwithin
  refine ⟨⟨fun hwithin asked request hasked => ?_, fun hspares asked => ?_⟩,
    fun asked request _ hdeclines => ?_⟩
  · have hbefore := hwithin asked ((List.prefix_append asked [request]).trans hasked)
    exact (hstep asked request hbefore).1 (hwithin _ hasked)
  · induction asked using List.reverseRecOn with
    | nil => exact fun _ => Nat.zero_le total
    | append_singleton asked request ih =>
      intro hasked
      have hbefore := ih ((List.prefix_append asked [request]).trans hasked)
      exact (hstep asked request hbefore).2 (hspares asked request hasked)
  · rw [after_append]
    exact perform_of_declines request hdeclines

/-- A cache that states less than its share gets what is left of its share and what remains, and
nothing more after that. -/
theorem committed_within_ten :
    let requests : List Request := [.register "a" 8, .grow "a" 3 20, .grow "a" 10 12]
    (∀ asked, asked <+: requests → ((opened 10).after asked).used ≤ 10) ∧
      (opened 10).after requests = (opened 10).after [.register "a" 8, .grow "a" 3 20] := by
  intro requests
  obtain ⟨hwithin, hdeclined⟩ := committed_within_iff 10 requests
  refine ⟨hwithin.2 fun asked request hasked => ?_, ?_⟩
  · obtain ⟨rest, hrest⟩ := hasked
    unfold requests at hrest
    match asked, hrest with
    | [], hrest => cases hrest; decide
    | [_], hrest => cases hrest; decide
    | [_, _], hrest => cases hrest; decide
    | _ :: _ :: _ :: asked, hrest => simp at hrest
  · exact hdeclined [.register "a" 8, .grow "a" 3 20] (.grow "a" 10 12) List.prefix_rfl (by decide)

/-- A cache whose share was taken over by a smaller namesake still states the size that it has, and
so gets more than there is. -/
theorem overdrawn_by_namesake :
    ((opened 10).after
      [.register "a" 8, .register "a" 2, .reserve "a" 8 12]).used = 12 := by
  decide

end Folio.Cache.Budget
