import Folio.Codec.Span
import Folio.Proofs.Codec.Varint

/-! # Where values end

A value at the head of a block is found from its own bytes: what follows them makes no
difference (`Varint.extent_split`, `takeBlock_split`).  And there are two ways of not finding
one.  Either the data ran out, or the bytes are there and are refused.
-/
namespace Folio.Codec

/-! ## Two kinds of errors -/

namespace Error

/-- The data ended before the value did. -/
def RanOut : Error → Prop
  | endOfData | truncated .. => True
  | _ => False

/-- The bytes are there, and they are no value: a number is too large, or a text is no UTF-8. -/
def Refuses : Error → Prop
  | overflow _ | invalidUtf8 _ => True
  | _ => False

variable {e : Error}

/-- Only the end of the data is another error inside a value. -/
theorem Refuses.within_eq (h : e.Refuses) : e.within = e := by
  cases e with
  | endOfData => exact h.elim
  | _ => rfl

theorem RanOut.within (h : e.RanOut) : e.within.RanOut := by
  cases e with
  | endOfData | truncated => trivial
  | _ => exact h

theorem Refuses.not_ranOut (h : e.Refuses) : ¬e.RanOut := by
  cases e with
  | endOfData | truncated => exact h.elim
  | _ => exact id

@[simp] theorem within_within (e : Error) : e.within.within = e.within := by
  cases e <;> rfl

end Error

/-! ## Numbers -/

namespace Varint

/-- **A number ends where its own bytes say.** -/
theorem extent_split {block : Bytes} {n : Nat} (h : extent block = .ok n) :
    ∃ bytes rest, block = bytes ++ rest ∧ bytes.length = n ∧
      ∀ more, extent (bytes ++ more) = .ok n := by
  unfold extent at h
  split at h
  · cases h
  split at h
  · rename_i last hfind
    cases h
    obtain ⟨hlast, hends, hbefore⟩ := List.findIdx?_eq_some_iff_getElem.1 hfind
    rw [List.length_take] at hlast
    have hlength : (block.take (last + 1)).length = last + 1 := by
      rw [List.length_take]
      omega
    refine ⟨block.take (last + 1), block.drop (last + 1), (List.take_append_drop ..).symm,
      hlength, fun more => ?_⟩
    -- the first byte that ends a number is the last of these
    have hfind' : (block.take (last + 1)).findIdx? endsNumber = some last := by
      refine List.findIdx?_eq_some_iff_getElem.2 ⟨by omega, ?_, fun j hj => ?_⟩
      · rw [List.getElem_take] at hends ⊢
        exact hends
      · have hnot := hbefore j hj
        rw [List.getElem_take] at hnot ⊢
        exact hnot
    have hne : (block.take (last + 1) ++ more).isEmpty = false := by
      rw [List.isEmpty_eq_false_iff, ← List.length_pos_iff, List.length_append]
      omega
    have htake : (block.take (last + 1) ++ more).take maxLength =
        block.take (last + 1) ++ more.take (maxLength - (last + 1)) := by
      rw [List.take_append, List.take_of_length_le (by omega), hlength]
    unfold extent
    rw [hne, htake, List.findIdx?_append, hfind']
    rfl
  · split at h <;> cases h

theorem extent_le {block : Bytes} {n : Nat} (h : extent block = .ok n) : n ≤ block.length := by
  obtain ⟨bytes, rest, rfl, rfl, -⟩ := extent_split h
  rw [List.length_append]
  exact Nat.le_add_right _ _

theorem extent_error {block : Bytes} {e : Error} (h : extent block = .error e) :
    e.RanOut ∨ e.Refuses := by
  unfold extent at h
  split at h
  · cases h
    exact Or.inl trivial
  split at h
  · cases h
  split at h <;> cases h
  · exact Or.inr trivial
  · exact Or.inl trivial

theorem decode_error {block : Bytes} {e : Error} (h : extent block = .error e) :
    decode block = .error e := by
  unfold decode
  rw [h]
  rfl

/-- A number whose end is found is evaluated, and refused only if it is too large. -/
theorem decode_append {bytes more : Bytes} (h : extent (bytes ++ more) = .ok bytes.length) :
    decode (bytes ++ more) =
      if value bytes < bound 64 then .ok (value bytes, bytes.length)
      else .error (.overflow 64) := by
  unfold decode
  rw [h]
  show (if value ((bytes ++ more).take bytes.length) < bound 64 then _ else _) = _
  rw [List.take_left]
  rfl

/-- A number that is read takes up all of its bytes. -/
theorem extent_of_decode {block : Bytes} {n length : Nat} (h : decode block = .ok (n, length)) :
    extent block = .ok length := by
  cases hextent : extent block with
  | error e =>
    rw [decode_error hextent] at h
    cases h
  | ok k =>
    obtain ⟨bytes, rest, rfl, rfl, hmore⟩ := extent_split hextent
    rw [decode_append (hmore rest)] at h
    split at h <;> cases h
    rfl

/-- **A number that is read is found in its own bytes.** -/
theorem decode_split {block : Bytes} {n length : Nat} (h : decode block = .ok (n, length)) :
    ∃ bytes rest, block = bytes ++ rest ∧ bytes.length = length ∧
      ∀ more, decode (bytes ++ more) = .ok (n, length) := by
  cases hextent : extent block with
  | error e =>
    rw [decode_error hextent] at h
    cases h
  | ok k =>
    obtain ⟨bytes, rest, rfl, rfl, hmore⟩ := extent_split hextent
    rw [decode_append (hmore rest)] at h
    refine ⟨bytes, rest, rfl, ?_⟩
    split at h
    · rename_i hvalue
      cases h
      exact ⟨rfl, fun more => by rw [decode_append (hmore more), if_pos hvalue]⟩
    · cases h

theorem error_of_decode {block : Bytes} {e : Error} (h : decode block = .error e) :
    e.RanOut ∨ e.Refuses := by
  cases hextent : extent block with
  | error e' =>
    rw [decode_error hextent] at h
    cases h
    exact extent_error hextent
  | ok k =>
    obtain ⟨bytes, rest, rfl, rfl, hmore⟩ := extent_split hextent
    rw [decode_append (hmore rest)] at h
    split at h
    · cases h
    · cases h
      exact Or.inr trivial

end Varint

/-! ## Blocks -/

/-- A block is its length and that many bytes. -/
theorem takeBlock_eq {block : Bytes} {size lead : Nat}
    (h : Varint.decode block = .ok (size, lead)) :
    takeBlock block =
      if size ≤ (block.drop lead).length then .ok ((block.drop lead).take size, lead + size)
      else .error (.truncated size (block.drop lead).length) := by
  unfold takeBlock
  rw [h]
  show (takeRaw size (block.drop lead) >>= fun taken => pure (taken.1, lead + taken.2)) = _
  unfold takeRaw
  by_cases hsize : size ≤ (block.drop lead).length
  · rw [if_pos ((hasAtLeast_iff _ _).2 hsize), if_pos hsize]
    rfl
  · rw [if_neg (fun hc => hsize ((hasAtLeast_iff _ _).1 hc)), if_neg hsize]
    rfl

theorem takeBlock_error {block : Bytes} {e : Error} (h : Varint.decode block = .error e) :
    takeBlock block = .error e := by
  unfold takeBlock
  rw [h]
  rfl

/-- **A block that is read is found in its own bytes.** -/
theorem takeBlock_split {block content : Bytes} {n : Nat} (h : takeBlock block = .ok (content, n)) :
    ∃ bytes rest, block = bytes ++ rest ∧ bytes.length = n ∧
      ∀ more, takeBlock (bytes ++ more) = .ok (content, n) := by
  cases hdecode : Varint.decode block with
  | error e =>
    rw [takeBlock_error hdecode] at h
    cases h
  | ok number =>
    obtain ⟨size, lead⟩ := number
    obtain ⟨front, rest, rfl, rfl, hmore⟩ := Varint.decode_split hdecode
    rw [takeBlock_eq hdecode, List.drop_left] at h
    split at h
    · rename_i hsize
      cases h
      have hlength : (rest.take size).length = size := List.length_take_of_le hsize
      refine ⟨front ++ rest.take size, rest.drop size, ?_, ?_, fun more => ?_⟩
      · rw [List.append_assoc, List.take_append_drop]
      · rw [List.length_append, hlength]
      · rw [List.append_assoc, takeBlock_eq (hmore _), List.drop_left,
          if_pos (by rw [List.length_append]; omega), List.take_append_of_le_length (by omega),
          List.take_of_length_le (by omega)]
    · cases h

theorem error_of_takeBlock {block : Bytes} {e : Error} (h : takeBlock block = .error e) :
    e.RanOut ∨ e.Refuses := by
  cases hdecode : Varint.decode block with
  | error e' =>
    rw [takeBlock_error hdecode] at h
    cases h
    exact Varint.error_of_decode hdecode
  | ok number =>
    rw [takeBlock_eq hdecode] at h
    split at h <;> cases h
    exact Or.inl trivial

/-- A block is measured as it is read. -/
theorem Span.block_eq (block : Bytes) : Span.block block = (takeBlock block).map (·.2) := by
  cases hdecode : Varint.decode block with
  | error e =>
    rw [takeBlock_error hdecode]
    unfold Span.block
    rw [hdecode]
    rfl
  | ok number =>
    obtain ⟨size, lead⟩ := number
    rw [takeBlock_eq hdecode]
    unfold Span.block
    rw [hdecode]
    show (if hasAtLeast size (block.drop lead) then _ else _) = _
    by_cases hsize : size ≤ (block.drop lead).length
    · rw [if_pos ((hasAtLeast_iff _ _).2 hsize), if_pos hsize]
      rfl
    · rw [if_neg (fun hc => hsize ((hasAtLeast_iff _ _).1 hc)), if_neg hsize]
      rfl

end Folio.Codec
