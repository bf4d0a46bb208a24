import Mathlib.Data.Nat.Digits.Defs
import Folio.Proofs.Codec.Copying

/-! # Numbers are read exactly

`Spells code n` says without a reader what the bytes of a number are and which number they spell.
Where a number ends is found before it is evaluated, so that its bytes may be there and the number
be too large: nine bytes always fit into 64 bits, but of a tenth only the lowest bit does
(`Spells.fits_iff`).  **`numbers_exact`** says that such a number is refused and every other one
is read as what it is, whether it is read as unsigned, as signed or while it is copied.
-/
namespace Folio.Codec

namespace Varint

/-! ## The bytes of a number -/

/-- **The bytes of a number**: at most ten, up to and with the first whose high bit is clear.  They
spell it in base 128, the least significant group first. -/
structure Spells (code : Bytes) (n : Nat) : Prop where
  short : code.length ≤ 10
  ends : ∃ groups last, code = groups ++ [last] ∧ (∀ b ∈ groups, 128 ≤ b) ∧ last < 128
  value : Nat.ofDigits 128 (code.map fun b => b.toNat % 128) = n

/-- The bytes at the head spell a number that does not fit into 64 bits. -/
def TooLarge (block : Bytes) : Prop := ∃ code n, code <+: block ∧ Spells code n ∧ 2 ^ 64 ≤ n

/-- Ten bytes and no end of a number among them. -/
def Endless (block : Bytes) : Prop := 10 ≤ block.length ∧ ∀ b ∈ block.take 10, 128 ≤ b

theorem value_eq_ofDigits (code : Bytes) :
    value code = Nat.ofDigits 128 (code.map fun b => b.toNat % 128) := by
  induction code with
  | nil => rfl
  | cons b code ih => rw [value, ih, List.map_cons, Nat.ofDigits_cons]

theorem endsNumber_eq_false_iff (b : UInt8) : endsNumber b = false ↔ 128 ≤ b := by
  unfold endsNumber
  rw [decide_eq_false_iff_not, UInt8.not_lt]

section
variable {code block rest : Bytes} {n length : Nat}

/-- The first byte that ends a number is the last of its bytes, whatever follows. -/
theorem Spells.findIdx?_eq (h : Spells code n) (rest : Bytes) :
    (code ++ rest).findIdx? endsNumber = some (code.length - 1) := by
  obtain ⟨groups, last, rfl, hgroups, hlast⟩ := h.ends
  have hnone : groups.findIdx? endsNumber = none :=
    List.findIdx?_eq_none_iff.2 fun b hb => (endsNumber_eq_false_iff b).2 (hgroups b hb)
  have hend : endsNumber last = true := decide_eq_true hlast
  rw [List.append_assoc, List.findIdx?_append, hnone, List.singleton_append, List.findIdx?_cons,
    if_pos hend]
  simp

theorem Spells.length_pos (h : Spells code n) : 0 < code.length := by
  obtain ⟨groups, last, rfl, -⟩ := h.ends
  simp

theorem Spells.extent_eq (h : Spells code n) (rest : Bytes) :
    extent (code ++ rest) = .ok code.length := by
  have hpos := h.length_pos
  have hne : (code ++ rest).isEmpty = false := by
    rw [List.isEmpty_eq_false_iff, ← List.length_pos_iff, List.length_append]
    omega
  have htake : (code ++ rest).take maxLength = code ++ rest.take (maxLength - code.length) := by
    rw [List.take_append, List.take_of_length_le (show _ ≤ maxLength from h.short)]
  unfold extent
  rw [hne, htake, h.findIdx?_eq]
  simp only [Bool.false_eq_true, ite_false, Except.ok.injEq]
  omega

/-- **Where a number ends is where its bytes end.** -/
theorem exists_spells_of_extent (h : extent block = .ok length) :
    ∃ code rest, block = code ++ rest ∧ Spells code (value code) := by
  unfold extent at h
  split at h
  · cases h
  split at h
  · rename_i last hfind
    cases h
    obtain ⟨hlast, hends, hbefore⟩ := List.findIdx?_eq_some_iff_getElem.1 hfind
    rw [List.getElem_take] at hends
    rw [List.length_take, Nat.lt_min] at hlast
    have hcode : block.take (last + 1) = block.take last ++ [block[last]] :=
      (List.take_append_getElem hlast.2).symm
    refine ⟨block.take (last + 1), block.drop (last + 1), (List.take_append_drop ..).symm,
      ?_, ⟨block.take last, block[last], hcode, fun b hb => ?_, ?_⟩, ?_⟩
    · rw [List.length_take]
      exact (Nat.min_le_left ..).trans hlast.1
    · obtain ⟨j, hj, rfl⟩ := List.getElem_of_mem hb
      rw [List.length_take, Nat.lt_min] at hj
      have hnot := hbefore j hj.1
      rw [List.getElem_take] at hnot ⊢
      exact (endsNumber_eq_false_iff _).1 (Bool.eq_false_iff.2 hnot)
    · exact of_decide_eq_true hends
    · exact (value_eq_ofDigits _).symm
  · split at h <;> cases h

/-- A number whose bytes are there is evaluated, and refused only if it is too large. -/
theorem Spells.decode_eq (h : Spells code n) (rest : Bytes) :
    decode (code ++ rest) =
      if n < 2 ^ 64 then .ok (n, code.length) else .error (.overflow 64) := by
  rw [decode_append (h.extent_eq rest), value_eq_ofDigits, h.value]
  rfl

/-- **A number is read off its bytes** and is what they spell. -/
theorem decode_eq_ok_iff :
    decode block = .ok (n, length) ↔
      ∃ code, code <+: block ∧ Spells code n ∧ n < 2 ^ 64 ∧ length = code.length := by
  constructor
  · intro h
    cases hextent : extent block with
    | error e =>
      rw [decode_error hextent] at h
      cases h
    | ok k =>
      obtain ⟨code, rest, rfl, hspells⟩ := exists_spells_of_extent hextent
      rw [hspells.decode_eq] at h
      split at h
      · rename_i hfits
        cases h
        exact ⟨code, List.prefix_append .., hspells, hfits, rfl⟩
      · cases h
  · rintro ⟨code, ⟨rest, rfl⟩, hspells, hfits, rfl⟩
    rw [hspells.decode_eq, if_pos hfits]

/-- **A number that is too large is not read back**, even from its shortest form. -/
theorem lt_of_decode_encode {m : Nat} (h : decode (encode m ++ rest) = .ok (n, length)) :
    m < 2 ^ 64 := by
  obtain ⟨code, ⟨more, hmore⟩, hspells, hfits, -⟩ := decode_eq_ok_iff.1 h
  -- both end with the first byte that ends a number
  have hend := findIdx?_encode m rest
  rw [← hmore, hspells.findIdx?_eq, Option.some.injEq] at hend
  have hpos := hspells.length_pos
  have hpos' := length_encode_pos m
  have hcode : code = encode m := (List.append_inj hmore (by omega)).1
  have hvalue := hspells.value
  rw [hcode, ← value_eq_ofDigits, value_encode] at hvalue
  rwa [hvalue]

theorem extent_overflow_iff : extent block = .error (.overflow 64) ↔ Endless block := by
  unfold extent Endless
  constructor
  · intro h
    split at h
    · cases h
    split at h
    · cases h
    · rename_i hfind
      split at h
      · rename_i hlong
        refine ⟨hlong, fun b hb => (endsNumber_eq_false_iff b).1 ?_⟩
        exact List.findIdx?_eq_none_iff.1 hfind b hb
      · cases h
  · rintro ⟨hlong, hbytes⟩
    have hne : block.isEmpty = false := by
      cases block with
      | nil => cases hlong
      | cons => rfl
    have hfind : (block.take maxLength).findIdx? endsNumber = none :=
      List.findIdx?_eq_none_iff.2 fun b hb => (endsNumber_eq_false_iff b).2 (hbytes b hb)
    rw [hne, hfind]
    exact if_pos hlong

/-- **A number is refused** if its bytes spell one that is too large, or if ten bytes do not end
it. -/
theorem decode_overflow_iff :
    decode block = .error (.overflow 64) ↔
      TooLarge block ∨ Endless block := by
  rw [← extent_overflow_iff]
  cases hextent : extent block with
  | error e =>
    rw [decode_error hextent, Except.error.injEq, Except.error.injEq]
    refine ⟨Or.inr, fun h => h.resolve_left ?_⟩
    rintro ⟨code, n, ⟨rest, rfl⟩, hspells, -⟩
    rw [hspells.extent_eq] at hextent
    cases hextent
  | ok k =>
    constructor
    · intro h
      obtain ⟨code, rest, rfl, hspells⟩ := exists_spells_of_extent hextent
      refine Or.inl ⟨code, _, List.prefix_append .., hspells, Nat.le_of_not_lt fun hfits => ?_⟩
      rw [hspells.decode_eq, if_pos hfits] at h
      cases h
    · rintro (⟨code, n, ⟨rest, rfl⟩, hspells, hlarge⟩ | h)
      · rw [hspells.decode_eq, if_neg (Nat.not_lt.2 hlarge)]
      · cases h

end

/-! ## Which numbers fit -/

theorem ofDigits_lt (groups : Bytes) :
    Nat.ofDigits 128 (groups.map fun b => b.toNat % 128) < 128 ^ groups.length := by
  have h := Nat.ofDigits_lt_base_pow_length (b := 128) (l := groups.map fun b => b.toNat % 128)
    (by decide) (by simp [Nat.mod_lt])
  rwa [List.length_map] at h

/-- **Of a tenth byte only the lowest bit fits.** -/
theorem Spells.fits_iff {code : Bytes} {n : Nat} (h : Spells code n) :
    n < 2 ^ 64 ↔ code.length < 10 ∨ code.getLast? = some 0 ∨ code.getLast? = some 1 := by
  have hshort := h.short
  have hvalue := h.value
  obtain ⟨groups, last, rfl, -, hlast⟩ := h.ends
  have hgroups := ofDigits_lt groups
  have hsmall : last.toNat % 128 = last.toNat := Nat.mod_eq_of_lt hlast
  have hbit : last = 0 ∨ last = 1 ↔ last.toNat < 2 := by
    rw [← UInt8.toNat_inj, ← UInt8.toNat_inj, UInt8.toNat_zero, UInt8.toNat_one]
    omega
  rw [List.map_append, List.map_singleton, Nat.ofDigits_append, Nat.ofDigits_singleton, hsmall,
    List.length_map] at hvalue
  rw [List.length_append, List.length_singleton] at hshort ⊢
  rw [List.getLast?_concat, Option.some.injEq, Option.some.injEq, hbit, ← hvalue]
  by_cases hten : groups.length = 9
  · rw [hten] at hgroups ⊢
    omega
  · have hlt : last.toNat < 128 := hlast
    have hnine : groups.length + 1 ≤ 9 := by omega
    have hbound : 128 ^ (groups.length + 1) ≤ 128 ^ 9 := Nat.pow_le_pow_right (by decide) hnine
    have hmul : 128 ^ groups.length * last.toNat ≤ 128 ^ groups.length * 127 :=
      Nat.mul_le_mul_left _ (by omega)
    rw [Nat.pow_succ] at hbound
    omega

/-- Ten bytes may end a number and yet spell one that is too large. -/
example :
    decode [255, 255, 255, 255, 255, 255, 255, 255, 255, 2] = .error (.overflow 64) := by
  rfl

end Varint

/-! ## The reads -/

section
variable (r : Reader) (output : Array UInt8)

theorem readU64_eq :
    readU64 r =
      match Varint.decode r.unread with
      | .ok (n, length) => .ok n.toUInt64 (r.advance length)
      | .error e => .error e r := by
  show EStateM.bind (readUnsigned 64) (fun n => pure n.toUInt64) r = _
  unfold EStateM.bind readUnsigned Decoder.ofUnread
  rw [Decoder.takeUnsigned_64]
  cases Varint.decode r.unread <;> rfl

theorem Varint.unzigzag_bounds {n : Nat} (h : n < 2 ^ 64) :
    -2 ^ 63 ≤ unzigzag n ∧ unzigzag n < 2 ^ 63 := by
  unfold unzigzag
  split <;> omega

theorem takeSigned_eq {width n length : Nat} {block : Bytes}
    (h : Varint.decode block = .ok (n, length)) :
    takeSigned width block =
      if -(Varint.bound (width - 1) : Int) ≤ Varint.unzigzag n ∧
          Varint.unzigzag n < Varint.bound (width - 1) then .ok (Varint.unzigzag n, length)
      else .error (.overflow width) := by
  unfold takeSigned
  rw [h]
  rfl

theorem takeSigned_ok {block : Bytes} {n length : Nat} (h : Varint.decode block = .ok (n, length)) :
    takeSigned 64 block = .ok (Varint.unzigzag n, length) := by
  have hfits := Varint.unzigzag_bounds (Varint.lt_bound_of_decode h)
  have hhalf : ((Varint.bound (64 - 1) : Nat) : Int) = 2 ^ 63 := by decide
  rw [takeSigned_eq h, hhalf, if_pos hfits]

theorem takeSigned_error {width : Nat} {block : Bytes} {e : Error}
    (h : Varint.decode block = .error e) : takeSigned width block = .error e := by
  unfold takeSigned
  rw [h]
  rfl

theorem readI64_eq :
    readI64 r =
      match Varint.decode r.unread with
      | .ok (n, length) => .ok (Varint.unzigzag n).toInt64 (r.advance length)
      | .error e => .error e r := by
  show EStateM.bind (readSigned 64) (fun i => pure i.toInt64) r = _
  unfold EStateM.bind readSigned Decoder.ofUnread
  cases hdecode : Varint.decode r.unread with
  | error e => rw [takeSigned_error hdecode]
  | ok number =>
    rw [takeSigned_ok hdecode]
    rfl

variable {r output}

/-- An unsigned number is handed on as it was read. -/
theorem readU64_eq_ok_iff {v : UInt64} {r' : Reader} :
    readU64 r = .ok v r' ↔
      ∃ code, code <+: r.unread ∧ Varint.Spells code v.toNat ∧ r' = r.advance code.length := by
  rw [readU64_eq]
  constructor
  · intro h
    cases hdecode : Varint.decode r.unread with
    | error e =>
      rw [hdecode] at h
      cases h
    | ok number =>
      obtain ⟨n, length⟩ := number
      obtain ⟨code, hcode, hspells, hfits, rfl⟩ := Varint.decode_eq_ok_iff.1 hdecode
      rw [hdecode] at h
      cases h
      have hn : n.toUInt64.toNat = n := UInt64.toNat_ofNat_of_lt' hfits
      exact ⟨code, hcode, hn.symm ▸ hspells, rfl⟩
  · rintro ⟨code, hcode, hspells, rfl⟩
    rw [Varint.decode_eq_ok_iff.2 ⟨code, hcode, hspells, v.toNat_lt, rfl⟩]
    show EStateM.Result.ok (UInt64.ofNat v.toNat) _ = _
    rw [UInt64.ofNat_toNat]

/-- A signed number is the zig-zag image of what was read. -/
theorem readI64_eq_ok_iff {i : Int64} {r' : Reader} :
    readI64 r = .ok i r' ↔
      ∃ code n, code <+: r.unread ∧ Varint.Spells code n ∧ n < 2 ^ 64 ∧
        i.toInt = Varint.unzigzag n ∧ r' = r.advance code.length := by
  rw [readI64_eq]
  constructor
  · intro h
    cases hdecode : Varint.decode r.unread with
    | error e =>
      rw [hdecode] at h
      cases h
    | ok number =>
      obtain ⟨n, length⟩ := number
      obtain ⟨code, hcode, hspells, hfits, rfl⟩ := Varint.decode_eq_ok_iff.1 hdecode
      obtain ⟨hmin, hmax⟩ := Varint.unzigzag_bounds hfits
      rw [hdecode] at h
      cases h
      exact ⟨code, n, hcode, hspells, hfits, Int64.toInt_ofInt_of_le hmin hmax, rfl⟩
  · rintro ⟨code, n, hcode, hspells, hfits, hi, rfl⟩
    rw [Varint.decode_eq_ok_iff.2 ⟨code, hcode, hspells, hfits, rfl⟩]
    show EStateM.Result.ok (Int64.ofInt (Varint.unzigzag n)) _ = _
    rw [← hi, Int64.ofInt_toInt]

/-- A number is copied as it stands, with its value. -/
theorem copyNumber_eq_ok_iff {n : Nat} {t : Transfer} :
    copyNumber { input := r, output } = .ok n t ↔
      ∃ code, code <+: r.unread ∧ Varint.Spells code n ∧ n < 2 ^ 64 ∧
        t = { input := r.advance code.length, output := output ++ code } := by
  rw [Decoder.copyNumber_eq]
  constructor
  · intro h
    cases hdecode : Varint.decode r.unread with
    | error e =>
      rw [hdecode] at h
      cases h
    | ok number =>
      obtain ⟨m, length⟩ := number
      obtain ⟨code, hcode, hspells, hfits, rfl⟩ := Varint.decode_eq_ok_iff.1 hdecode
      rw [hdecode] at h
      cases h
      rw [← List.prefix_iff_eq_take.1 hcode]
      exact ⟨code, hcode, hspells, hfits, rfl⟩
  · rintro ⟨code, hcode, hspells, hfits, rfl⟩
    rw [Varint.decode_eq_ok_iff.2 ⟨code, hcode, hspells, hfits, rfl⟩]
    dsimp only
    rw [← List.prefix_iff_eq_take.1 hcode]

end

/-- **Numbers are never reduced.**  What is read is exactly what the bytes at the head spell, its
zig-zag image where a signed number is read; those bytes are consumed and, where they are copied,
written out.  If they spell a number that does not fit, or do not end one, the read is refused and
nothing is consumed. -/
theorem numbers_exact (r : Reader) (output : Array UInt8) :
    (∀ v r', readU64 r = .ok v r' ↔
      ∃ code, code <+: r.unread ∧ Varint.Spells code v.toNat ∧ r' = r.advance code.length) ∧
    (∀ i r', readI64 r = .ok i r' ↔
      ∃ code n, code <+: r.unread ∧ Varint.Spells code n ∧ n < 2 ^ 64 ∧
        i.toInt = Varint.unzigzag n ∧ r' = r.advance code.length) ∧
    (∀ n t, copyNumber { input := r, output } = .ok n t ↔
      ∃ code, code <+: r.unread ∧ Varint.Spells code n ∧ n < 2 ^ 64 ∧
        t = { input := r.advance code.length, output := output ++ code }) ∧
    (readU64 r = .error (.overflow 64) r ↔ Varint.TooLarge r.unread ∨ Varint.Endless r.unread) ∧
    (readI64 r = .error (.overflow 64) r ↔ Varint.TooLarge r.unread ∨ Varint.Endless r.unread) ∧
    (copyNumber { input := r, output } = .error (.overflow 64) { input := r, output } ↔
      Varint.TooLarge r.unread ∨ Varint.Endless r.unread) := by
  refine ⟨fun v r' => readU64_eq_ok_iff, fun i r' => readI64_eq_ok_iff,
    fun n t => copyNumber_eq_ok_iff, ?_, ?_, ?_⟩
  · rw [readU64_eq, ← Varint.decode_overflow_iff]
    cases Varint.decode r.unread <;> simp
  · rw [readI64_eq, ← Varint.decode_overflow_iff]
    cases Varint.decode r.unread <;> simp
  · rw [Decoder.copyNumber_eq, ← Varint.decode_overflow_iff]
    cases Varint.decode r.unread <;> simp

end Folio.Codec
