import Mathlib.Tactic.Common
import Folio.Codec.Varint

/-! # Numbers read back

The shortest form of a number is a run of bytes with the high bit set and one byte without
it, so a reader finds its end whatever follows, and evaluates it to the number that was
written.
-/
namespace Folio.Codec.Varint

theorem toNat_toUInt8 {n : Nat} (h : n < 256) : n.toUInt8.toNat = n :=
  UInt8.toNat_ofNat_of_lt' h

theorem endsNumber_iff {n : Nat} (h : n < 256) : endsNumber n.toUInt8 = decide (n < 128) := by
  unfold endsNumber
  rw [decide_eq_decide, UInt8.lt_iff_toNat_lt, toNat_toUInt8 h]
  rfl

theorem length_encode_pos (n : Nat) : 0 < (encode n).length := by
  rw [encode]
  split <;> exact Nat.succ_pos _

/-- Seven bits take a byte. -/
theorem length_encode_le {k n : Nat} (h : n < bound (7 * (k + 1))) :
    (encode n).length ≤ k + 1 := by
  induction k generalizing n with
  | zero =>
    have hsmall : n < 128 := h
    rw [encode, if_pos hsmall]
    exact Nat.le_refl 1
  | succ k ih =>
    rw [encode]
    split
    · exact Nat.succ_le_succ (Nat.zero_le _)
    · have hbound : bound (7 * (k + 2)) = bound (7 * (k + 1)) * 128 :=
        Nat.pow_add 2 (7 * (k + 1)) 7
      rw [hbound, ← Nat.div_lt_iff_lt_mul (by decide)] at h
      exact Nat.succ_le_succ (ih h)

/-- The number ends where it was written to the end, and not before. -/
theorem findIdx?_encode (n : Nat) (rest : Bytes) :
    (encode n ++ rest).findIdx? endsNumber = some ((encode n).length - 1) := by
  induction n using Nat.strongRecOn with
  | ind n ih =>
    rw [encode]
    split
    · rename_i hsmall
      have hend : endsNumber n.toUInt8 = true := by
        rw [endsNumber_iff (by omega), decide_eq_true hsmall]
      rw [List.cons_append, List.findIdx?_cons, if_pos hend]
      rfl
    -- the first byte does not end the number, so the end is that of the rest
    · have hmore : endsNumber (n % 128 + 128).toUInt8 = false := by
        rw [endsNumber_iff (by omega), decide_eq_false (by omega)]
      have hpos := length_encode_pos (n / 128)
      rw [List.cons_append, List.findIdx?_cons, hmore, ih (n / 128) (by omega)]
      simp only [Bool.false_eq_true, ite_false, Option.map_some, List.length_cons,
        Option.some.injEq]
      omega

theorem value_encode (n : Nat) : value (encode n) = n := by
  induction n using Nat.strongRecOn with
  | ind n ih =>
    rw [encode]
    split
    · rename_i hsmall
      rw [value, value, toNat_toUInt8 (by omega)]
      omega
    · rw [value, toNat_toUInt8 (by omega), ih (n / 128) (by omega)]
      omega

theorem extent_encode {n : Nat} (h : n < bound 64) (rest : Bytes) :
    extent (encode n ++ rest) = .ok (encode n).length := by
  have hpos := length_encode_pos n
  have hle : (encode n).length ≤ maxLength :=
    length_encode_le (k := 9) (Nat.lt_trans h (by decide))
  have hne : (encode n ++ rest).isEmpty = false := by
    cases hcode : encode n with
    | nil => simp [hcode] at hpos
    | cons b bs => rfl
  have htake : (encode n ++ rest).take maxLength =
      encode n ++ rest.take (maxLength - (encode n).length) := by
    rw [List.take_append, List.take_of_length_le hle]
  unfold extent
  rw [hne, htake, findIdx?_encode]
  simp only [Bool.false_eq_true, ite_false, Except.ok.injEq]
  omega

/-- **A number that fits into 64 bits is read back**, whatever follows it. -/
theorem decode_encode {n : Nat} (h : n < bound 64) (rest : Bytes) :
    decode (encode n ++ rest) = .ok (n, (encode n).length) := by
  unfold decode
  rw [extent_encode h rest]
  show (if value ((encode n ++ rest).take (encode n).length) < bound 64 then _ else _) = _
  rw [List.take_left, value_encode, if_pos h]
  rfl

/-- A number that is read fits into 64 bits. -/
theorem lt_bound_of_decode {bytes : Bytes} {n length : Nat} (h : decode bytes = .ok (n, length)) :
    n < bound 64 := by
  unfold decode at h
  cases hextent : extent bytes with
  | error e =>
    rw [hextent] at h
    cases h
  | ok k =>
    rw [hextent] at h
    have h' : (if value (bytes.take k) < bound 64 then .ok (value (bytes.take k), k)
        else .error (.overflow 64)) = (.ok (n, length) : Except Error (Nat × Nat)) := h
    split at h'
    · cases h'
      assumption
    · cases h'

end Folio.Codec.Varint
