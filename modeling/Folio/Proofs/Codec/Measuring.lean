import Folio.Proofs.Codec.Atomicity
import Folio.Proofs.Codec.Words

/-! # Measuring without a fault

A machine measures what lies before it while the cursor stays where it is, so it adds offsets to the
cursor, and what it adds comes from the data.  Yet no sum is larger than the block: an offset grows
by the length of an item only after the item was found to be there.  That is what the loop keeps
(`measure_eq`): the next item begins in the block, and the block is no longer than a word can say.
-/
namespace Folio.Codec

variable {α β : Type}

namespace Item

/-- How far an item extends. -/
def span : Item → Span
  | number => Varint.extent
  | block => Span.block

/-- How far so many items in a row extend. -/
def spans : Item → (count : Nat) → Span
  | number => .varints
  | block => .blocks

theorem spans_zero (item : Item) (bytes : Bytes) : item.spans 0 bytes = .ok 0 := by
  cases item <;> rfl

theorem spans_succ (item : Item) (count : Nat) :
    item.spans (count + 1) = item.span.andThen (item.spans count) := by
  cases item <;> rfl

theorem inside_spans (item : Item) (count : Nat) : (item.spans count).Inside := by
  cases item with
  | number => exact Span.inside_varints count
  | block => exact Span.inside_blocks count

theorem inside_span (item : Item) : item.span.Inside := by
  cases item with
  | number => exact fun _ _ => Varint.extent_le
  | block => exact Span.inside_block

end Item

namespace Checked

/-! ## Numbers and blocks -/

theorem evaluate_eq {bytes : Bytes} {length : Nat} (h : Varint.extent bytes = .ok length)
    (p : Place) : evaluate (bytes.take length) p = some (Varint.decode bytes, p) := by
  obtain ⟨code, rest, rfl, rfl, hmore⟩ := Varint.extent_split h
  have halone := Varint.decode_append (hmore [])
  rw [List.append_nil] at halone
  rw [List.take_left, evaluate, Varint.decode_append (hmore rest), halone]
  split <;> rfl

section
variable {block : Bytes} {p : Place} {offset : Nat} (hblock : block.length ≤ maxCount)
  (hoffset : p.position + offset ≤ block.length)

include hblock hoffset

theorem extentAt_eq :
    extentAt block offset p = some (Varint.extent (block.drop (p.position + offset)), p) := by
  rw [extentAt, position_bind, add_of_le (by omega), pure_bind, slice_to_end hoffset, pure_bind]
  generalize block.drop (p.position + offset) = rest
  unfold Varint.extent
  by_cases hempty : rest.isEmpty = true
  · rw [if_pos hempty, if_pos hempty]
    rfl
  rw [if_neg hempty, if_neg hempty]
  cases hfind : (rest.take Varint.maxLength).findIdx? Varint.endsNumber with
  | some last =>
    have hlast := (List.findIdx?_eq_some_iff_getElem.1 hfind).1
    rw [List.length_take] at hlast
    have hlong : Varint.maxLength + 1 ≤ maxCount := by decide
    dsimp only
    rw [add_of_le (by omega)]
    rfl
  | none =>
    dsimp only
    split
    · rfl
    · have hlong : Varint.maxLength + 1 ≤ maxCount := by decide
      rw [add_of_le (by omega)]
      rfl

theorem contentAt_eq :
    contentAt block offset p = some (Span.block (block.drop (p.position + offset)), p) := by
  have hextent := extentAt_eq hblock hoffset
  have hrest : (block.drop (p.position + offset)).length = block.length - p.position - offset := by
    rw [List.length_drop, Nat.sub_sub]
  cases hlead : Varint.extent (block.drop (p.position + offset)) with
  | error e =>
    rw [hlead] at hextent
    rw [contentAt, bind_of_error hextent, Span.block_eq,
      takeBlock_error (Varint.decode_error hlead)]
    rfl
  | ok lead =>
    rw [hlead] at hextent
    have hle := Varint.extent_le hlead
    rw [contentAt, bind_of_ok hextent, position_bind, add_of_le (by omega), pure_bind,
      add_of_le (by omega), pure_bind, slice_of_le (by omega), pure_bind,
      bind_of_eq (evaluate_eq hlead p), Span.block_eq]
    cases hdecode : Varint.decode (block.drop (p.position + offset)) with
    | error e =>
      rw [takeBlock_error hdecode]
      rfl
    | ok number =>
      obtain ⟨size, used⟩ := number
      cases (Varint.extent_of_decode hdecode).symm.trans hlead
      show (remaining block >>= _) p = _
      rw [bind_of_ok (remaining_eq (Nat.le_of_add_right_le hoffset)), sub_of_le (by omega),
        pure_bind, sub_of_le (by omega), pure_bind, takeBlock_eq hdecode, List.length_drop, hrest]
      -- what the block's size is compared with is what bounds the sum
      by_cases hsize : size ≤ block.length - p.position - offset - lead
      · rw [if_neg (by omega), if_pos hsize, add_of_le (by omega)]
        rfl
      · rw [if_pos (by omega), if_neg hsize]
        rfl

theorem itemAt_eq (item : Item) :
    itemAt block item offset p = some (item.span (block.drop (p.position + offset)), p) := by
  cases item with
  | number => exact extentAt_eq hblock hoffset
  | block => exact contentAt_eq hblock hoffset

end

/-! ## The number at the cursor -/

section
variable {block : Bytes} {p : Place} {n length : Nat} {e : Error}
  (hblock : block.length ≤ maxCount) (hp : p.position ≤ block.length)

include hblock hp

/-- The number at the cursor is evaluated from its own bytes. -/
theorem peek_ok (h : Varint.decode (block.drop p.position) = .ok (n, length)) :
    peek block p = some (.ok ((block.drop p.position).take length, n, length), p) := by
  have hlength := Varint.extent_of_decode h
  have hextent : extentAt block 0 p = some (.ok length, p) :=
    hlength ▸ @extentAt_eq block p 0 hblock hp
  rw [peek, bind_of_ok hextent, bind_of_ok (unread_eq hp),
    slice_from_start (Varint.extent_le hlength), pure_bind, bind_of_eq (evaluate_eq hlength p), h]
  rfl

theorem peek_error (h : Varint.decode (block.drop p.position) = .error e) :
    peek block p = some (.error e, p) := by
  have hextent : extentAt block 0 p = some (Varint.extent (block.drop p.position), p) :=
    @extentAt_eq block p 0 hblock hp
  rw [peek, bind_of_eq hextent]
  cases hlength : Varint.extent (block.drop p.position) with
  | error e' =>
    cases (Varint.decode_error hlength).symm.trans h
    rfl
  | ok length =>
    show (unread block >>= _) p = _
    rw [bind_of_ok (unread_eq hp), slice_from_start (Varint.extent_le hlength), pure_bind,
      bind_of_eq (evaluate_eq hlength p), h]
    rfl

end

/-! ## Items in a row -/

/-- What an error is called if a value has begun. -/
def relabel (begun : Bool) (e : Error) : Error := if begun then e.within else e

theorem relabel_within (begun : Bool) (e : Error) : relabel begun e.within = e.within := by
  cases begun with
  | false => rfl
  | true => exact e.within_within

theorem withinIf_eq {step : Checked α} {p : Place} {outcome : Except Error α} (begun : Bool)
    (h : step p = some (outcome, p)) :
    withinIf begun step p = some (outcome.mapError (relabel begun), p) := by
  cases outcome with
  | ok a => exact tryCatch_of_ok h
  | error e => exact tryCatch_of_error h

/-- **Items in a row are measured without a fault**, whatever their number is and whatever lengths
they announce: each of them is looked for in the block, behind those that were found. -/
theorem measure_eq {block : Bytes} (hblock : block.length ≤ maxCount) (item : Item) (begun : Bool)
    (count : Nat) {p : Place} {offset : Nat} (hoffset : p.position + offset ≤ block.length) :
    measure block item begun count offset p =
      some (((item.spans count (block.drop (p.position + offset))).mapError (relabel begun)).map
        (offset + ·), p) := by
  induction count generalizing begun offset with
  | zero =>
    rw [item.spans_zero]
    rfl
  | succ count ih =>
    have hlength := withinIf_eq begun (itemAt_eq hblock hoffset item)
    rw [measure, item.spans_succ]
    cases hspan : item.span (block.drop (p.position + offset)) with
    | error e =>
      rw [hspan] at hlength
      rw [bind_of_error hlength, Span.andThen_of_error hspan]
      rfl
    | ok length =>
      rw [hspan] at hlength
      have hle := item.inside_span _ _ hspan
      rw [List.length_drop] at hle
      rw [bind_of_ok hlength, add_of_le (by omega), pure_bind, ih true (by omega),
        Span.andThen_of_ok hspan, List.drop_drop, Nat.add_assoc]
      cases item.spans count (block.drop (p.position + (offset + length))) with
      | error e => exact congrArg (fun e => some (Except.error e, p)) (relabel_within begun e).symm
      | ok others => exact congrArg (fun n => some (Except.ok n, p)) (Nat.add_assoc ..)

/-- What lies before the cursor is measured as it is without a machine. -/
theorem measure_unread {block : Bytes} (hblock : block.length ≤ maxCount) (item : Item)
    (count : Nat) {p : Place} (hp : p.position ≤ block.length) :
    measure block item false count 0 p =
      some (item.spans count (block.drop p.position), p) := by
  rw [measure_eq hblock item false count hp, Nat.add_zero]
  cases item.spans count (block.drop p.position) with
  | error e => rfl
  | ok n => exact congrArg (fun n => some (Except.ok n, p)) (Nat.zero_add n)

end Checked
end Folio.Codec
