import Mathlib.Algebra.Group.Nat.Defs
import Folio.Codec.Value
import Folio.Proofs.Codec.Copying

/-! # Values of every kind in a row

Each kind of value says itself where it ends: a number by the bit that ends it, a fixed one by
its width, a block or a text by the length in front.  So values of any kinds that are written one
after another are read back one after another, and copied without being read:
**`values_round_trip`**.

One law for each kind says what its reader makes of what was written (`Value.reads_encode`) and
one that its copier passes over the same bytes (`Value.copies_encode`); neither depends on what
follows, which is what lets them be put in a row.
-/
namespace Folio.Codec

open Decoder

/-- What is made of a value that was read may be known under another name. -/
theorem Decoder.Reads.map_eq {α β : Type} {d : Decoder α} {bytes : Bytes} {a : α} {b : β}
    (hd : Reads d bytes a) (f : α → β) (hb : f a = b) :
    Reads (d >>= fun a => Pure.pure (f a)) bytes b :=
  hb ▸ hd.map f

/-! ## Numbers of a fixed width -/

@[simp] theorem length_toBigEndian (count n : Nat) : (toBigEndian count n).length = count := by
  induction count generalizing n with
  | zero => rfl
  | succ count ih => rw [toBigEndian, List.length_append, ih, List.length_singleton]

/-- A number that fits is spelled in base 256 without loss. -/
theorem bigEndian_toBigEndian {count n : Nat} (h : n < 256 ^ count) :
    bigEndian (toBigEndian count n) = n := by
  induction count generalizing n with
  | zero =>
    have hzero : n = 0 := Nat.lt_one_iff.1 h
    rw [hzero]
    rfl
  | succ count ih =>
    have hfront : n / 256 < 256 ^ count := by
      rw [Nat.div_lt_iff_lt_mul (by decide), ← Nat.pow_succ]
      exact h
    have hlast : n.toUInt8.toNat = n % 256 := UInt8.toNat_ofNat'
    have happend (block : Bytes) (b : UInt8) :
        bigEndian (block ++ [b]) = 256 * bigEndian block + b.toNat := by
      simp only [bigEndian, List.foldl_append, List.foldl_cons, List.foldl_nil]
    rw [toBigEndian, happend, ih hfront, hlast]
    omega

theorem takeFixed_toBigEndian {count n : Nat} (hcount : 0 < count) (h : n < 256 ^ count)
    (rest : Bytes) : takeFixed count (toBigEndian count n ++ rest) = .ok (n, count) := by
  have hne : (toBigEndian count n ++ rest).isEmpty = false := by
    rw [List.isEmpty_eq_false_iff, ← List.length_pos_iff, List.length_append, length_toBigEndian]
    omega
  have hraw : takeRaw count (toBigEndian count n ++ rest) =
      .ok (toBigEndian count n, count) := by
    unfold takeRaw
    rw [if_pos (by simp), List.take_left' (length_toBigEndian count n)]
  unfold takeFixed
  rw [hne, hraw]
  show Except.ok (bigEndian (toBigEndian count n), count) = _
  rw [bigEndian_toBigEndian h]

theorem reads_fixed (count : Nat) {n : Nat} (hcount : 0 < count) (h : n < 256 ^ count) :
    Reads (ofUnread (takeFixed count)) (toBigEndian count n) n :=
  reads_ofUnread fun rest => by rw [takeFixed_toBigEndian hcount h, length_toBigEndian]

/-! ## Signed numbers -/

/-- The zig-zag order takes one bit more than the absolute value. -/
theorem Varint.zigzag_lt {width : Nat} {i : Int} (hmin : -(2 ^ width : Nat) ≤ i)
    (hmax : i < (2 ^ width : Nat)) : zigzag i < bound (width + 1) := by
  have hbound : bound (width + 1) = 2 ^ width * 2 := Nat.pow_succ 2 width
  rw [hbound]
  unfold zigzag
  split <;> omega

theorem takeSigned_encode {width : Nat} {i : Int} (hmin : -(2 ^ width : Nat) ≤ i)
    (hmax : i < (2 ^ width : Nat)) (hwidth : width < 64) (rest : Bytes) :
    takeSigned (width + 1) (Varint.encode (Varint.zigzag i) ++ rest) =
      .ok (i, (Varint.encode (Varint.zigzag i)).length) := by
  have hfits : Varint.zigzag i < Varint.bound 64 :=
    Nat.lt_of_lt_of_le (Varint.zigzag_lt hmin hmax) (Nat.pow_le_pow_right (by decide) hwidth)
  unfold takeSigned
  rw [Varint.decode_encode hfits]
  dsimp only [bind, Except.bind]
  rw [Varint.unzigzag_zigzag]
  exact if_pos ⟨hmin, hmax⟩

theorem reads_signed {width : Nat} {i : Int} (hmin : -(2 ^ width : Nat) ≤ i)
    (hmax : i < (2 ^ width : Nat)) (hwidth : width < 64) :
    Reads (readSigned (width + 1)) (Varint.encode (Varint.zigzag i)) i :=
  reads_ofUnread (takeSigned_encode hmin hmax hwidth)

/-! ## One value -/

namespace Value

/-- The length of a block or a text can be written; every other value fits as it is. -/
def Fits : Value → Prop
  | block bytes => bytes.length < Varint.bound 64
  | text s => Codec.Fits s
  | _ => True

instance : DecidablePred Fits
  | block bytes => inferInstanceAs (Decidable (bytes.length < _))
  | text s => inferInstanceAs (Decidable (Codec.Fits s))
  | byte _ | u16 _ | u32 _ | u64 _ | i16 _ | i32 _ | i64 _ | fixedU32 _ | fixedU64 _ =>
    instDecidableTrue

/-- **A value is read back as what it was**, wherever it stands. -/
theorem reads_encode {v : Value} (h : v.Fits) : Reads v.kind.read v.encode v := by
  cases v with
  | byte b => exact (reads_byte b).map byte
  | u16 n =>
    have hread := (reads_unsigned n.toNat_lt (by decide)).map_eq (·.toUInt16) UInt16.ofNat_toNat
    exact hread.map u16
  | u32 n => exact (reads_u32 n).map u32
  | u64 n => exact (reads_u64 n).map u64
  | i16 i =>
    have hread := (reads_signed i.le_toInt i.toInt_lt (by decide)).map_eq (·.toInt16)
      (Int16.ofInt_toInt i)
    exact hread.map i16
  | i32 i =>
    have hread := (reads_signed i.le_toInt i.toInt_lt (by decide)).map_eq (·.toInt32)
      (Int32.ofInt_toInt i)
    exact hread.map i32
  | i64 i =>
    have hread := (reads_signed i.le_toInt i.toInt_lt (by decide)).map_eq (·.toInt64)
      (Int64.ofInt_toInt i)
    exact hread.map i64
  | fixedU32 n =>
    have hread := (reads_fixed 4 (by decide) n.toNat_lt).map_eq (·.toUInt32)
      UInt32.ofNat_toNat
    exact hread.map fixedU32
  | fixedU64 n =>
    have hread := (reads_fixed 8 (by decide) n.toNat_lt).map_eq (·.toUInt64)
      UInt64.ofNat_toNat
    exact hread.map fixedU64
  | block bytes =>
    have hread : Reads readBlock (encodeBlock bytes) bytes := reads_ofUnread (takeBlock_encode h)
    exact hread.map block
  | text s => exact (reads_text h).map text

/-- **A value is copied as it was written**, wherever it stands. -/
theorem copies_encode {v : Value} (h : v.Fits) : Copier.Copies v.kind.copy v.encode () := by
  have hnumber {n : Nat} (hn : n < Varint.bound 64) :
      (copyVarints 1).Copies (Varint.encode n) () :=
    copySpan_copies fun more => (varints_one _).trans (Varint.extent_encode hn more)
  have hraw {count : Nat} {bytes : Bytes} (hlength : bytes.length = count) :
      (copyRaw count).Copies bytes () := by
    refine copySpan_copies fun more => ?_
    rw [Span.raw, if_pos (by simp [hlength]), hlength]
  have hblock {bytes : Bytes} (hbytes : bytes.length < Varint.bound 64) :
      (copyBlocks 1).Copies (encodeBlock bytes) () :=
    copySpan_copies fun more => by
      rw [blocks_one, Span.block_eq, takeBlock_encode hbytes]
      rfl
  cases v with
  | byte b => exact hraw rfl
  | u16 n => exact hnumber (Nat.lt_trans n.toNat_lt (by decide))
  | u32 n => exact hnumber (Nat.lt_trans n.toNat_lt (by decide))
  | u64 n => exact hnumber n.toNat_lt
  | i16 i => exact hnumber (Nat.lt_trans (Varint.zigzag_lt i.le_toInt i.toInt_lt) (by decide))
  | i32 i => exact hnumber (Nat.lt_trans (Varint.zigzag_lt i.le_toInt i.toInt_lt) (by decide))
  | i64 i => exact hnumber (Varint.zigzag_lt i.le_toInt i.toInt_lt)
  | fixedU32 n => exact hraw (length_toBigEndian 4 _)
  | fixedU64 n => exact hraw (length_toBigEndian 8 _)
  | block bytes => exact hblock h
  | text s => exact hblock h

end Value

/-! ## Values in a row -/

/-- Reads values of the given kinds, one after another. -/
def readEach (kinds : List Kind) : Decoder (List Value) := kinds.mapM Kind.read

/-- Copies values of the given kinds, one after another. -/
def copyEach (kinds : List Kind) : Copier Unit := kinds.forM Kind.copy

theorem reads_each {values : List Value} (h : ∀ v ∈ values, v.Fits) :
    Reads (readEach (values.map Value.kind)) (values.flatMap Value.encode) values := by
  induction values with
  | nil => exact Reads.pure []
  | cons v values ih =>
    have hfirst := Value.reads_encode (h v List.mem_cons_self)
    have hothers := ih fun u hu => h u (List.mem_cons_of_mem v hu)
    unfold readEach
    rw [List.map_cons, List.mapM_cons]
    exact hfirst.bind (hothers.map (v :: ·))

theorem copies_each {values : List Value} (h : ∀ v ∈ values, v.Fits) :
    Copier.Copies (copyEach (values.map Value.kind)) (values.flatMap Value.encode) () := by
  induction values with
  | nil => exact Copier.Copies.pure ()
  | cons v values ih =>
    have hfirst := Value.copies_encode (h v List.mem_cons_self)
    have hothers := ih fun u hu => h u (List.mem_cons_of_mem v hu)
    exact hfirst.bind hothers

/-- **Values in a row are read back and copied.**  Whatever stands before and behind them, reading
the same kinds from where the first one begins gives exactly these values and stops where the rest
begins; and copying each of them instead appends their bytes as they were written. -/
theorem values_round_trip {values : List Value} (hfits : ∀ v ∈ values, v.Fits)
    (before rest : Bytes) :
    let written := values.flatMap Value.encode
    let start := (Reader.ofBytes (before ++ written ++ rest)).advance before.length
    ∃ stop : Reader, stop.position = (before ++ written).length ∧ stop.unread = rest ∧
      readEach (values.map Value.kind) start = .ok values stop ∧
      ∀ output, copyEach (values.map Value.kind) { input := start, output } =
        .ok () { input := stop, output := output ++ written } := by
  intro written start
  have hstart : start.unread = written ++ rest := by
    show ((before ++ written ++ rest).drop before.length) = written ++ rest
    rw [List.append_assoc, List.drop_left]
  refine ⟨start.advance written.length, ?_, Reader.unread_advance hstart,
    reads_each hfits start rest hstart,
    fun output => copies_each hfits { input := start, output } rest hstart⟩
  show 0 + before.length + written.length = (before ++ written).length
  rw [List.length_append, Nat.zero_add]

/-- Values at the limits of their kinds, behind a byte that continues a number and before another
one. -/
theorem values_round_trip_limits :
    let values : List Value :=
      [.i16 (-32768), .text "日本😀", .u64 18446744073709551615, .byte 128, .fixedU32 4294967040,
        .block [255, 0], .i64 (-9223372036854775808), .u16 128, .text "", .fixedU64 1]
    let start := (Reader.ofBytes ([128] ++ values.flatMap Value.encode ++ [128])).advance 1
    (∀ v ∈ values, v.Fits) ∧ ∃ stop : Reader, stop.unread = [128] ∧
      readEach (values.map Value.kind) start = .ok values stop ∧
      copyEach (values.map Value.kind) { input := start, output := #[] } =
        .ok () { input := stop, output := (#[] : Array UInt8) ++ values.flatMap Value.encode } := by
  intro values start
  have hfits : ∀ v ∈ values, v.Fits := by decide
  obtain ⟨stop, -, hrest, hread, hcopy⟩ := values_round_trip hfits [128] [128]
  exact ⟨hfits, stop, hrest, hread, hcopy #[]⟩

end Folio.Codec
