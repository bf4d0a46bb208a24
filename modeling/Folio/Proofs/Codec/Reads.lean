import Folio.Codec.Counted
import Folio.Proofs.Codec.Varint

/-! # What a decoder reads

`d.Reads bytes a` says that `d` reads `a` off `bytes` wherever they stand: at any position
and whatever follows.  A decoder that is put together from others reads what they read
one after another, so the law of each compound value follows its definition.
`d.Ensures P` says that whatever `d` reads, from whatever bytes, satisfies `P`.
-/
namespace Folio.Codec

variable {α β : Type} {σ : Type}

/-! ## One step after another -/

section
variable {step : EStateM Error σ α} {f : α → EStateM Error σ β} {s s' : σ} {a : α} {b : β}
  {e : Error}

theorem bind_of_ok (h : step s = .ok a s') : (step >>= f) s = f a s' := by
  show EStateM.bind step f s = _
  rw [EStateM.bind, h]

theorem bind_of_error (h : step s = .error e s') : (step >>= f) s = .error e s' := by
  show EStateM.bind step f s = _
  rw [EStateM.bind, h]

/-- What follows a step sees no more of it than how it ends. -/
theorem bind_congr_of_eq {step' : EStateM Error σ α} (h : step s = step' s) :
    (step >>= f) s = (step' >>= f) s := by
  show EStateM.bind step f s = EStateM.bind step' f s
  rw [EStateM.bind, EStateM.bind, h]

/-- What was done step by step was done in each step. -/
theorem bind_eq_ok_iff :
    (step >>= f) s = .ok b s' ↔ ∃ a now, step s = .ok a now ∧ f a now = .ok b s' := by
  cases hstep : step s with
  | ok a now => simp [bind_of_ok hstep]
  | error e now => simp [bind_of_error hstep]

theorem within_eq_ok_iff : within step s = .ok a s' ↔ step s = .ok a s' := by
  unfold within
  cases step s <;> simp

theorem within_eq_error_iff :
    within step s = .error e s' ↔ ∃ e', step s = .error e' s' ∧ e = e'.within := by
  unfold within
  cases step s with
  | ok => simp
  | error => simp [and_comm, eq_comm]

end

/-! ## Bytes and their value -/

/-- The decoder takes `bytes` off the head of what is unread and makes `a` of them. -/
def Decoder.Reads (d : Decoder α) (bytes : Bytes) (a : α) : Prop :=
  ∀ (r : Reader) (rest : Bytes), r.unread = bytes ++ rest → d r = .ok a (r.advance bytes.length)

theorem Reader.advance_advance (r : Reader) (m n : Nat) :
    (r.advance m).advance n = r.advance (m + n) := by
  simp only [advance, Nat.add_assoc, List.drop_drop, Nat.sub_sub]

theorem Reader.advance_zero (r : Reader) : r.advance 0 = r := by
  simp only [advance, Nat.add_zero, List.drop_zero, Nat.sub_zero]

theorem Reader.unread_advance {r : Reader} {bytes rest : Bytes} (h : r.unread = bytes ++ rest) :
    (r.advance bytes.length).unread = rest := by
  simp only [advance, h, List.drop_left]

namespace Decoder

/-! ## Putting decoders together -/

theorem Reads.pure (a : α) : Reads (pure a) [] a := fun _ _ _ => rfl

/-- What is read is handed on. -/
theorem Reads.bind_eq {d : Decoder α} {bytes rest : Bytes} {a : α} {r : Reader}
    (hd : Reads d bytes a) (f : α → Decoder β) (hr : r.unread = bytes ++ rest) :
    (d >>= f) r = f a (r.advance bytes.length) :=
  bind_of_ok (hd r rest hr)

theorem Reads.bind {d : Decoder α} {f : α → Decoder β} {bytes more : Bytes} {a : α} {b : β}
    (hd : Reads d bytes a) (hf : Reads (f a) more b) : Reads (d >>= f) (bytes ++ more) b := by
  intro r rest hr
  rw [List.append_assoc] at hr
  rw [hd.bind_eq f hr, hf _ rest (Reader.unread_advance hr), Reader.advance_advance,
    List.length_append]

theorem Reads.map {d : Decoder α} {bytes : Bytes} {a : α} (hd : Reads d bytes a) (f : α → β) :
    Reads (d >>= fun a => Pure.pure (f a)) bytes (f a) := by
  have h := hd.bind (f := fun a => Pure.pure (f a)) (Reads.pure (f a))
  rwa [List.append_nil] at h

/-- A value that is read raises no error, so it is read inside another one as well. -/
theorem Reads.within {d : Decoder α} {bytes : Bytes} {a : α} (hd : Reads d bytes a) :
    Reads (Codec.within d) bytes a := by
  intro r rest hr
  rw [Codec.within, hd r rest hr]

theorem reads_ofUnread {f : Bytes → Except Error (α × Nat)} {bytes : Bytes} {a : α}
    (hf : ∀ rest, f (bytes ++ rest) = .ok (a, bytes.length)) : Reads (ofUnread f) bytes a := by
  intro r rest hr
  rw [ofUnread, hr, hf]

theorem Reads.times {d : Decoder α} {encode : α → Bytes} {items : List α}
    (hd : ∀ a ∈ items, Reads d (encode a) a) :
    Reads (Codec.times d items.length) (items.flatMap encode) items := by
  induction items with
  | nil => exact Reads.pure []
  | cons a items ih =>
    have hfirst := hd a List.mem_cons_self
    have hothers := ih fun b hb => hd b (List.mem_cons_of_mem a hb)
    exact hfirst.bind (hothers.map (a :: ·))

end Decoder

/-! ## Single values -/

theorem takeUnsigned_encode {width n : Nat} (h : n < Varint.bound width) (hw : width ≤ 64)
    (rest : Bytes) :
    takeUnsigned width (Varint.encode n ++ rest) = .ok (n, (Varint.encode n).length) := by
  have hbound : n < Varint.bound 64 :=
    Nat.lt_of_lt_of_le h (Nat.pow_le_pow_right (by decide) hw)
  unfold takeUnsigned
  rw [Varint.decode_encode hbound]
  exact if_pos h

theorem takeBlock_encode {block : Bytes} (h : block.length < Varint.bound 64) (rest : Bytes) :
    takeBlock (encodeBlock block ++ rest) = .ok (block, (encodeBlock block).length) := by
  unfold takeBlock encodeBlock
  rw [List.append_assoc, Varint.decode_encode h]
  show (takeRaw block.length
      ((Varint.encode block.length ++ (block ++ rest)).drop (Varint.encode block.length).length) >>=
    fun taken => pure (taken.1, (Varint.encode block.length).length + taken.2)) = _
  have hraw : takeRaw block.length (block ++ rest) = .ok (block, block.length) := by
    unfold takeRaw
    rw [if_pos (by simp), List.take_left]
  rw [List.drop_left, hraw, List.length_append]
  rfl

/-- A text is UTF-8 and is found again in its bytes. -/
theorem decode_encodeUtf8 (text : String) : Utf8.decode (Utf8.encode text) = .ok text := by
  have hbytes : (⟨(Utf8.encode text).toArray⟩ : ByteArray) = text.toByteArray := rfl
  unfold Utf8.decode String.fromUTF8?
  rw [hbytes, dif_pos text.isValidUTF8]
  rfl

/-- The length of a text can be written. -/
def Fits (text : String) : Prop := (Utf8.encode text).length < Varint.bound 64

instance (text : String) : Decidable (Fits text) := inferInstanceAs (Decidable (_ < _))

/-- A text is its block, decoded. -/
theorem takeText_eq {bytes block : Bytes} {n : Nat} (h : takeBlock bytes = .ok (block, n)) :
    takeText bytes = ((Utf8.decode block).mapError .invalidUtf8).map (·, n) := by
  unfold takeText
  rw [h]
  dsimp only [bind, Except.bind]
  cases Utf8.decode block with
  | error fault => rfl
  | ok text => rfl

theorem takeText_error {bytes : Bytes} {e : Error} (h : takeBlock bytes = .error e) :
    takeText bytes = .error e := by
  unfold takeText
  rw [h]
  rfl

theorem takeText_encode {text : String} (h : Fits text) (rest : Bytes) :
    takeText (encodeText text ++ rest) = .ok (text, (encodeText text).length) := by
  rw [encodeText, takeText_eq (takeBlock_encode h rest), decode_encodeUtf8]
  rfl

open Decoder

theorem reads_byte (b : UInt8) : Reads readByte [b] b := reads_ofUnread fun _ => rfl

theorem reads_unsigned {width n : Nat} (h : n < Varint.bound width) (hw : width ≤ 64) :
    Reads (readUnsigned width) (Varint.encode n) n :=
  reads_ofUnread (takeUnsigned_encode h hw)

theorem reads_u32 (n : UInt32) : Reads readU32 (Varint.encode n.toNat) n := by
  have hn : n.toNat.toUInt32 = n := UInt32.ofNat_toNat
  have h := (reads_unsigned n.toNat_lt (by decide)).map (·.toUInt32)
  rwa [hn] at h

theorem reads_u64 (n : UInt64) : Reads readU64 (Varint.encode n.toNat) n := by
  have hn : n.toNat.toUInt64 = n := UInt64.ofNat_toNat
  have h := (reads_unsigned n.toNat_lt (by decide)).map (·.toUInt64)
  rwa [hn] at h

theorem reads_text {text : String} (h : Fits text) :
    Reads readText (encodeText text) text :=
  reads_ofUnread (takeText_encode h)

/-- **Counted items are read back**, if each of them is. -/
theorem reads_counted {item : Decoder α} {encode : α → Bytes} {items : List α}
    (hcount : items.length < Varint.bound 64) (hitems : ∀ a ∈ items, Reads item (encode a) a) :
    Reads (readCounted item) (Varint.encode items.length ++ items.flatMap encode) items :=
  (reads_unsigned hcount (by decide)).bind (Reads.times fun a ha => (hitems a ha).within)

/-! ## What is read satisfies -/

/-- Every value that the decoder reads satisfies `P`. -/
def Decoder.Ensures (d : Decoder α) (P : α → Prop) : Prop :=
  ∀ (r : Reader) (a : α) (r' : Reader), d r = .ok a r' → P a

namespace Decoder

theorem Ensures.pure {P : α → Prop} {a : α} (h : P a) : Ensures (Pure.pure a) P := by
  intro r b r' hrun
  cases hrun
  exact h

theorem Ensures.bind {P : α → Prop} {Q : β → Prop} {d : Decoder α} {f : α → Decoder β}
    (hd : Ensures d P) (hf : ∀ a, P a → Ensures (f a) Q) : Ensures (d >>= f) Q := by
  intro r b r' hrun
  obtain ⟨a, r₁, hstep, hmore⟩ := bind_eq_ok_iff.1 hrun
  exact hf a (hd r a r₁ hstep) r₁ b r' hmore

theorem Ensures.within {P : α → Prop} {d : Decoder α} (hd : Ensures d P) :
    Ensures (Codec.within d) P :=
  fun r a r' hrun => hd r a r' (within_eq_ok_iff.1 hrun)

theorem ensures_ofUnread {P : α → Prop} {f : Bytes → Except Error (α × Nat)}
    (hf : ∀ bytes a n, f bytes = .ok (a, n) → P a) : Ensures (ofUnread f) P := by
  intro r a r' hrun
  unfold ofUnread at hrun
  split at hrun
  · rename_i b n hread
    cases hrun
    exact hf _ _ _ hread
  · cases hrun

theorem Ensures.times {P : α → Prop} {d : Decoder α} (hd : Ensures d P) (count : Nat) :
    Ensures (Codec.times d count) fun items => items.length = count ∧ ∀ a ∈ items, P a := by
  induction count with
  | zero => exact .pure ⟨rfl, fun _ h => by cases h⟩
  | succ count ih =>
    refine hd.bind fun a ha => ih.bind fun items hitems => .pure ⟨?_, fun b hb => ?_⟩
    · exact congrArg Nat.succ hitems.1
    · rcases List.mem_cons.1 hb with rfl | hb
      · exact ha
      · exact hitems.2 b hb

end Decoder

theorem ensures_true (d : Decoder α) : Ensures d fun _ => True := fun _ _ _ _ => trivial

theorem ensures_unsigned (width : Nat) : Ensures (readUnsigned width) (· < Varint.bound width) := by
  refine ensures_ofUnread fun bytes n length h => ?_
  unfold takeUnsigned at h
  cases hdecode : Varint.decode bytes with
  | error e =>
    rw [hdecode] at h
    cases h
  | ok m =>
    rw [hdecode] at h
    have h' : (if m.1 < Varint.bound width then .ok m else .error (.overflow width)) =
        (.ok (n, length) : Except Error (Nat × Nat)) := h
    split at h'
    · cases h'
      assumption
    · cases h'

theorem length_lt_of_takeBlock {bytes block : Bytes} {length : Nat}
    (h : takeBlock bytes = .ok (block, length)) : block.length < Varint.bound 64 := by
  unfold takeBlock at h
  cases hdecode : Varint.decode bytes with
  | error e =>
    rw [hdecode] at h
    cases h
  | ok m =>
    obtain ⟨size, lead⟩ := m
    rw [hdecode] at h
    have h' : (takeRaw size (bytes.drop lead) >>= fun taken =>
        pure (taken.1, lead + taken.2)) = .ok (block, length) := h
    unfold takeRaw at h'
    split at h'
    · cases h'
      exact Nat.lt_of_le_of_lt (List.length_take_le _ _) (Varint.lt_bound_of_decode hdecode)
    · cases h'

theorem encode_of_decodeUtf8 {block : Bytes} {text : String}
    (h : Utf8.decode block = .ok text) : Utf8.encode text = block := by
  unfold Utf8.decode String.fromUTF8? at h
  by_cases hvalid : ByteArray.IsValidUTF8 ⟨block.toArray⟩
  · rw [dif_pos hvalid] at h
    cases h
    rfl
  · rw [dif_neg hvalid] at h
    cases h

theorem ensures_text : Ensures readText Fits := by
  refine ensures_ofUnread fun bytes text length h => ?_
  cases hblock : takeBlock bytes with
  | error e =>
    rw [takeText_error hblock] at h
    cases h
  | ok taken =>
    obtain ⟨block, n⟩ := taken
    rw [takeText_eq hblock] at h
    cases hdecode : Utf8.decode block with
    | error fault =>
      rw [hdecode] at h
      cases h
    | ok text' =>
      rw [hdecode] at h
      cases h
      unfold Fits
      rw [encode_of_decodeUtf8 hdecode]
      exact length_lt_of_takeBlock hblock

theorem ensures_counted {P : α → Prop} {item : Decoder α} (hitem : Ensures item P) :
    Ensures (readCounted item) fun items =>
      items.length < Varint.bound 64 ∧ ∀ a ∈ items, P a := by
  refine (ensures_unsigned 64).bind fun count hcount => ?_
  intro r items r' hrun
  obtain ⟨hlength, hitems⟩ := hitem.within.times count r items r' hrun
  exact ⟨hlength ▸ hcount, hitems⟩

end Folio.Codec
