import Folio.Proofs.Codec.Calls
import Folio.Proofs.Codec.Truncation

/-! # The rest of a counted list at once

What is left of a counted list can be skipped item by item, or at once as one long row of numbers.
The count comes from the data and may be anything, so for the second way the number of numbers is
capped, and it is compared with the bytes that are left before any of them is looked at.  Neither
refuses a list that the first way would get through: a number takes up at least one byte
(`le_remaining_of_skipVarints`), and no data is as long as the cap.  That leaves the order in which
the bytes are measured, and a row of rows is a row (`skipVarints_add_iff`).

**`skipRest_agrees`** says that both ways succeed together and end at the same place.  They fail
differently: item by item the reader stops at the item that cannot be skipped, at once it stays
where it was.
-/
namespace Folio.Codec

variable {α : Type}

/-! ## Rows of rows -/

section
variable {S : Bytes → α → Prop} {code front more : Bytes} {items others : List α}

theorem Series.append (hfront : Series S front items) (hmore : Series S more others) :
    Series S (front ++ more) (items ++ others) := by
  induction hfront with
  | nil => exact hmore
  | cons first _ ih =>
    rw [List.append_assoc, List.cons_append]
    exact .cons first ih

theorem Series.split (h : Series S code (items ++ others)) :
    ∃ front more, code = front ++ more ∧ Series S front items ∧ Series S more others := by
  induction items generalizing code with
  | nil => exact ⟨[], code, rfl, .nil, h⟩
  | cons a items ih =>
    cases h with
    | cons first rest =>
      obtain ⟨front, more, rfl, hitems, hothers⟩ := ih rest
      exact ⟨_, more, (List.append_assoc ..).symm, .cons first hitems, hothers⟩

end

section
variable {r r' : Reader} {n m : Nat} {u : Unit}

/-- **Numbers are skipped at once or in two parts.** -/
theorem skipVarints_add_iff :
    skipVarints (n + m) r = .ok u r' ↔
      ∃ now, skipVarints n r = .ok () now ∧ skipVarints m now = .ok u r' := by
  have hparts := (parses_skipVarints n).bind fun _ => parses_skipVarints m
  have hboth : skipVarints (n + m) r = .ok u r' ↔
      (skipVarints n >>= fun _ => skipVarints m) r = .ok u r' := by
    rw [parses_skipVarints, hparts]
    refine exists_congr fun code => and_congr_right fun _ => and_congr_left fun _ => ?_
    constructor
    · rintro ⟨values, hlength, hseries⟩
      rw [← List.take_append_drop n values] at hseries
      obtain ⟨front, more, rfl, hfront, hmore⟩ := hseries.split
      exact ⟨front, more, (), rfl, ⟨_, List.length_take_of_le (by omega), hfront⟩,
        ⟨_, by rw [List.length_drop]; omega, hmore⟩⟩
    · rintro ⟨front, more, -, rfl, ⟨values, rfl, hfront⟩, ⟨others, rfl, hmore⟩⟩
      exact ⟨values ++ others, List.length_append, hfront.append hmore⟩
  rw [hboth, bind_eq_ok_iff]
  exact ⟨fun ⟨_, now, hfirst, hsecond⟩ => ⟨now, hfirst, hsecond⟩,
    fun ⟨now, hfirst, hsecond⟩ => ⟨(), now, hfirst, hsecond⟩⟩

/-- Each number takes up at least one byte. -/
theorem le_remaining_of_skipVarints (h : skipVarints n r = .ok u r') : n ≤ r.remaining := by
  have hspent := spends_skipVarints n r u r' h
  omega

end

/-! ## Counted lists -/

namespace CountedList

/-- **A list is emptied by asking for the next item again and again**, until there is none. -/
inductive Emptied (item : Decoder α) : CountedList → Reader → CountedList → Reader → Prop
  | done {list list' : CountedList} {r r' : Reader}
      (last : list.next item r = .ok (none, list') r') : Emptied item list r list' r'
  | more {list list₁ list' : CountedList} {r r₁ r' : Reader} {a : α}
      (first : list.next item r = .ok (some a, list₁) r₁)
      (others : Emptied item list₁ r₁ list' r') : Emptied item list r list' r'

section
variable {list list' : CountedList} {item : Decoder α} {r r' : Reader} {a : α} {perItem : Nat}

/-- There is no next item once all are consumed. -/
theorem next_of_consumed (h : list.consumed = list.declared) (item : Decoder α) (r : Reader) :
    list.next item r = .ok (none, list) r := by
  unfold next
  rw [dif_pos h]
  rfl

theorem next_eq_ok_iff (h : list.consumed < list.declared) {found : Option α} :
    list.next item r = .ok (found, list') r' ↔
      ∃ a, item r = .ok a r' ∧ found = some a ∧
        list' = { declared := list.declared, consumed := list.consumed + 1 } := by
  unfold next
  rw [dif_neg (Nat.ne_of_lt h), bind_eq_ok_iff]
  constructor
  · rintro ⟨a, now, hitem, hpure⟩
    cases hpure
    exact ⟨a, within_eq_ok_iff.1 hitem, rfl, rfl⟩
  · rintro ⟨a, hitem, rfl, rfl⟩
    exact ⟨a, r', within_eq_ok_iff.2 hitem, rfl⟩

/-- **Emptying a list is passing over all of its numbers.** -/
theorem emptied_iff :
    Emptied (skipVarints perItem) list r list' r' ↔
      skipVarints ((list.declared - list.consumed) * perItem) r = .ok () r' ∧
        list' = list.drained := by
  have hle := list.consumed_le
  induction hleft : list.declared - list.consumed generalizing list r with
  | zero =>
    have hall : list.consumed = list.declared := by omega
    have hnone : skipVarints (0 * perItem) r = .ok () r := by
      rw [Nat.zero_mul]
      exact skipSpan_eq_ok_iff.2 ⟨0, rfl, (r.advance_zero).symm⟩
    rw [hnone, drained_eq_self hall]
    constructor
    · rintro (last | ⟨first, -⟩)
      · rw [next_of_consumed hall] at last
        cases last
        exact ⟨rfl, rfl⟩
      · rw [next_of_consumed hall] at first
        cases first
    · rintro ⟨hreader, rfl⟩
      cases hreader
      exact .done (next_of_consumed hall _ _)
  | succ left ih =>
    have hlt : list.consumed < list.declared := by omega
    have hothers (now : Reader) :
        Emptied (skipVarints perItem)
          { declared := list.declared, consumed := list.consumed + 1 } now list' r' ↔
          skipVarints (left * perItem) now = .ok () r' ∧ list' = list.drained :=
      ih hlt (show list.declared - (list.consumed + 1) = left by omega)
    rw [Nat.succ_mul, Nat.add_comm, skipVarints_add_iff]
    constructor
    · rintro (last | ⟨first, others⟩)
      · obtain ⟨a, -, hnone, -⟩ := (next_eq_ok_iff hlt).1 last
        cases hnone
      · obtain ⟨a, hitem, -, rfl⟩ := (next_eq_ok_iff hlt).1 first
        obtain ⟨hrest, rfl⟩ := (hothers _).1 others
        exact ⟨⟨_, hitem, hrest⟩, rfl⟩
    · rintro ⟨⟨now, hitem, hrest⟩, rfl⟩
      exact .more ((next_eq_ok_iff hlt).2 ⟨(), hitem, rfl, rfl⟩) ((hothers now).2 ⟨hrest, rfl⟩)

/-- The numbers that are skipped at once. -/
def numbersLeft (list : CountedList) (perItem : Nat) : Nat :=
  min ((list.declared - list.consumed) * perItem) maxCount

/-- Skipping at once refuses a count that the bytes cannot hold, and skips a row of numbers. -/
theorem skipRest_eq (list : CountedList) (perItem : Nat) (r : Reader) :
    list.skipRest perItem r =
      if r.remaining < list.numbersLeft perItem then
        .error (.truncated (list.numbersLeft perItem) r.remaining) r
      else (within (skipVarints (list.numbersLeft perItem)) >>= fun _ => pure list.drained) r := by
  unfold skipRest numbersLeft
  show (ite _ _ _ : Decoder CountedList) r = _
  split <;> rfl

/-- **The cap and the comparison refuse nothing that could be skipped.** -/
theorem skipRest_eq_ok_iff (hsize : r.remaining < maxCount) :
    list.skipRest perItem r = .ok list' r' ↔
      skipVarints ((list.declared - list.consumed) * perItem) r = .ok () r' ∧
        list' = list.drained := by
  have hrow : (within (skipVarints (list.numbersLeft perItem)) >>= fun _ => pure list.drained) r =
      .ok list' r' ↔ skipVarints (list.numbersLeft perItem) r = .ok () r' ∧
        list' = list.drained := by
    rw [bind_eq_ok_iff]
    constructor
    · rintro ⟨_, now, hskip, hpure⟩
      cases hpure
      exact ⟨within_eq_ok_iff.1 hskip, rfl⟩
    · rintro ⟨hskip, rfl⟩
      exact ⟨(), r', within_eq_ok_iff.2 hskip, rfl⟩
  rw [skipRest_eq]
  by_cases hfits : (list.declared - list.consumed) * perItem ≤ r.remaining
  · have hcap : list.numbersLeft perItem = (list.declared - list.consumed) * perItem :=
      Nat.min_eq_left (by omega)
    rw [if_neg (by omega), hrow, hcap]
  · have hmore : r.remaining < list.numbersLeft perItem :=
      Nat.lt_min.2 ⟨Nat.lt_of_not_le hfits, hsize⟩
    rw [if_pos hmore]
    constructor
    · intro h
      cases h
    · rintro ⟨hskip, -⟩
      exact absurd (le_remaining_of_skipVarints hskip) hfits

theorem skipRest_error {e : Error} (h : list.skipRest perItem r = .error e r') :
    r' = r ∧ e ≠ .endOfData := by
  rw [skipRest_eq] at h
  split at h
  · cases h
    exact ⟨rfl, fun heq => by cases heq⟩
  · refine ⟨?_, fun heq => ?_⟩
    · exact ((traceless_skipSpan _).within.map fun _ => list.drained) r e r' h
    · exact ((neverEnds_within _).bind fun _ => neverEnds_pure _) r r' (heq ▸ h)

end

/-- **Skipping the rest of a list at once is skipping it item by item.**  Both succeed together, and
then they end at the same place with a list that has no next item and can be closed.  Skipping at
once fails without a trace, and never with the end of the data. -/
theorem skipRest_agrees (list : CountedList) (perItem : Nat) (r : Reader)
    (hsize : r.remaining < maxCount) :
    (∀ list' r', list.skipRest perItem r = .ok list' r' ↔
      Emptied (skipVarints perItem) list r list' r') ∧
    (∀ list' r', list.skipRest perItem r = .ok list' r' →
      list'.declared = list.declared ∧ list'.consumed = list.declared ∧ list'.finish = .ok () ∧
        ∀ {α : Type} (item : Decoder α), list'.next item r' = .ok (none, list') r') ∧
    ∀ e r', list.skipRest perItem r = .error e r' → r' = r ∧ e ≠ .endOfData := by
  refine ⟨fun list' r' => ?_, fun list' r' h => ?_, fun e r' => skipRest_error⟩
  · rw [skipRest_eq_ok_iff hsize, emptied_iff]
  · obtain ⟨-, rfl⟩ := (skipRest_eq_ok_iff hsize).1 h
    exact ⟨rfl, rfl, list.finish_drained, fun item => next_of_consumed rfl item r'⟩

/-- Two of three pairs are left, and both are there.  Another list declares more numbers than can be
counted, and the data ends in the first of them. -/
theorem skipRest_agrees_pairs :
    Emptied (skipVarints 2) { declared := 3, consumed := 1 } (Reader.ofBytes [1, 2, 3, 4, 5])
      { declared := 3, consumed := 3 } ((Reader.ofBytes [1, 2, 3, 4, 5]).advance 4) ∧
    skipRest { declared := 2 ^ 63, consumed := 0 } 4 (Reader.ofBytes [129]) =
      .error (.truncated maxCount 1) (Reader.ofBytes [129]) ∧
    ∀ list' r', ¬Emptied (skipVarints 4) { declared := 2 ^ 63, consumed := 0 }
      (Reader.ofBytes [129]) list' r' := by
  have hpairs := skipRest_agrees { declared := 3, consumed := 1 } 2 (Reader.ofBytes [1, 2, 3, 4, 5])
    (by decide)
  have hmany := skipRest_agrees { declared := 2 ^ 63, consumed := 0 } 4 (Reader.ofBytes [129])
    (by decide)
  have hrefused : skipRest { declared := 2 ^ 63, consumed := 0 } 4 (Reader.ofBytes [129]) =
      .error (.truncated maxCount 1) (Reader.ofBytes [129]) := rfl
  refine ⟨(hpairs.1 _ _).1 rfl, hrefused, fun list' r' hemptied => ?_⟩
  have hskipped := (hmany.1 list' r').2 hemptied
  rw [hrefused] at hskipped
  cases hskipped

end CountedList
end Folio.Codec
