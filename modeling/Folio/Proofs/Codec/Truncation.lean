import Folio.Proofs.Codec.Copying

/-! # Data that ends too early

A value that is cut off is never taken for another one.  `d.RunsOut bytes` says that wherever the
data ends within `bytes`, the decoder finds that it ran out; a decoder that is put together from
others runs out wherever one of them does (`RunsOut.bind`), so the law follows the definition of
each compound value.

Running out is the end of the data only where a value could have begun.  A step that `NeverEnds`
is one that does not report that end, such as every step inside a value that has begun.
-/
namespace Folio.Codec

variable {α β σ : Type}

/-! ## Bytes that are cut off -/

/-- The bytes up to some place before their end. -/
def CutOff (cut bytes : Bytes) : Prop := cut <+: bytes ∧ cut ≠ bytes

instance (cut bytes : Bytes) : Decidable (CutOff cut bytes) := inferInstanceAs (Decidable (_ ∧ _))

variable {cut bytes more : Bytes}

theorem CutOff.length_lt (h : CutOff cut bytes) : cut.length < bytes.length :=
  Nat.lt_of_le_of_ne h.1.length_le fun heq => h.2 (h.1.eq_of_length heq)

/-- **The cut is in the first part or in the second one.** -/
theorem CutOff.cases_append (h : CutOff cut (bytes ++ more)) :
    CutOff cut bytes ∨ ∃ rest, cut = bytes ++ rest ∧ CutOff rest more := by
  by_cases hcut : CutOff cut bytes
  · exact .inl hcut
  have hwhole : bytes <+: cut := by
    rcases List.prefix_or_prefix_of_prefix h.1 (List.prefix_append bytes more) with hle | hle
    · have heq : cut = bytes := Decidable.byContradiction fun hne => hcut ⟨hle, hne⟩
      exact heq ▸ List.prefix_rfl
    · exact hle
  obtain ⟨rest, rfl⟩ := hwhole
  refine .inr ⟨rest, rfl, (List.prefix_append_right_inj bytes).1 h.1, fun heq => h.2 ?_⟩
  rw [heq]

/-! ## Decoders that run out -/

namespace Decoder

/-- Where the data ends within `bytes`, the decoder finds that it ran out. -/
def RunsOut (d : Decoder α) (bytes : Bytes) : Prop :=
  ∀ r : Reader, CutOff r.unread bytes → ∃ e r', d r = .error e r' ∧ e.RanOut

variable {d : Decoder α} {a : α}

/-- No data ends within no bytes. -/
theorem runsOut_nil (d : Decoder α) : RunsOut d [] :=
  fun _ hcut => absurd (List.prefix_nil.1 hcut.1) hcut.2

/-- **The data ends within the first value or within the second one.** -/
theorem RunsOut.bind {f : α → Decoder β} (hd : RunsOut d bytes) (hreads : Reads d bytes a)
    (hf : RunsOut (f a) more) : RunsOut (d >>= f) (bytes ++ more) := by
  intro r hcut
  rcases hcut.cases_append with hfirst | ⟨rest, hrest, hsecond⟩
  · obtain ⟨e, r', hrun, he⟩ := hd r hfirst
    exact ⟨e, r', bind_of_error hrun, he⟩
  · have hunread : (r.advance bytes.length).unread = rest := Reader.unread_advance hrest
    obtain ⟨e, r', hrun, he⟩ := hf (r.advance bytes.length) (hunread ▸ hsecond)
    exact ⟨e, r', (hreads.bind_eq f hrest).trans hrun, he⟩

theorem RunsOut.map (hd : RunsOut d bytes) (f : α → β) :
    RunsOut (d >>= fun a => pure (f a)) bytes := by
  intro r hcut
  obtain ⟨e, r', hrun, he⟩ := hd r hcut
  exact ⟨e, r', bind_of_error hrun, he⟩

theorem RunsOut.within (hd : RunsOut d bytes) : RunsOut (Codec.within d) bytes := by
  intro r hcut
  obtain ⟨e, r', hrun, he⟩ := hd r hcut
  exact ⟨e.within, r', by rw [Codec.within, hrun], he.within⟩

theorem RunsOut.times {encode : α → Bytes} {items : List α}
    (hreads : ∀ a ∈ items, Reads d (encode a) a) (hd : ∀ a ∈ items, RunsOut d (encode a)) :
    RunsOut (Codec.times d items.length) (items.flatMap encode) := by
  induction items with
  | nil => exact runsOut_nil _
  | cons a items ih =>
    have hothers := ih (fun b hb => hreads b (List.mem_cons_of_mem a hb))
      fun b hb => hd b (List.mem_cons_of_mem a hb)
    exact (hd a List.mem_cons_self).bind (hreads a List.mem_cons_self) (hothers.map (a :: ·))

theorem runsOut_ofUnread {f : Bytes → Except Error (α × Nat)}
    (hf : ∀ cut, CutOff cut bytes → ∃ e, f cut = .error e ∧ e.RanOut) :
    RunsOut (ofUnread f) bytes := by
  intro r hcut
  obtain ⟨e, herror, he⟩ := hf r.unread hcut
  exact ⟨e, r, ofUnread_error herror, he⟩

end Decoder

/-! ## Single values -/

/-- A part of a number does not show where the number ends. -/
theorem Varint.extent_cut {n : Nat} (h : n < bound 64) (hcut : CutOff cut (encode n)) :
    ∃ e, extent cut = .error e ∧ e.RanOut := by
  have hlength := hcut.length_lt
  have hmax : (encode n).length ≤ maxLength :=
    length_encode_le (k := 9) (Nat.lt_trans h (by decide))
  obtain ⟨rest, hrest⟩ := hcut.1
  -- the only byte that ends the number is its last one
  have hnone : cut.findIdx? endsNumber = none := by
    have hwhole := findIdx?_encode n []
    rw [List.append_nil, ← hrest, List.findIdx?_append] at hwhole
    cases hfind : cut.findIdx? endsNumber with
    | none => rfl
    | some i =>
      obtain ⟨hi, -⟩ := List.findIdx?_eq_some_iff_getElem.1 hfind
      rw [hfind, hrest, Option.some_or, Option.some.injEq] at hwhole
      omega
  unfold extent
  split
  · exact ⟨_, rfl, trivial⟩
  · rw [List.take_of_length_le (by omega), hnone]
    exact ⟨_, if_neg (by omega), trivial⟩

theorem Varint.decode_cut {n : Nat} (h : n < bound 64) (hcut : CutOff cut (encode n)) :
    ∃ e, decode cut = .error e ∧ e.RanOut := by
  obtain ⟨e, herror, he⟩ := extent_cut h hcut
  exact ⟨e, decode_error herror, he⟩

/-- A block is cut off within its length or after it. -/
theorem takeBlock_cut {block : Bytes} (h : block.length < Varint.bound 64)
    (hcut : CutOff cut (encodeBlock block)) : ∃ e, takeBlock cut = .error e ∧ e.RanOut := by
  rcases CutOff.cases_append hcut with hlead | ⟨rest, rfl, hbody⟩
  · obtain ⟨e, herror, he⟩ := Varint.decode_cut h hlead
    exact ⟨e, takeBlock_error herror, he⟩
  · have hlength := hbody.length_lt
    rw [takeBlock_eq (Varint.decode_encode h rest), List.drop_left, if_neg (by omega)]
    exact ⟨_, rfl, trivial⟩

open Decoder

theorem runsOut_byte (b : UInt8) : RunsOut readByte [b] := by
  refine runsOut_ofUnread fun cut hcut => ?_
  have hnil : cut = [] := List.length_eq_zero_iff.1 (Nat.lt_one_iff.1 hcut.length_lt)
  rw [hnil]
  exact ⟨_, rfl, trivial⟩

theorem runsOut_unsigned {width n : Nat} (h : n < Varint.bound 64) :
    RunsOut (readUnsigned width) (Varint.encode n) := by
  refine runsOut_ofUnread fun cut hcut => ?_
  obtain ⟨e, herror, he⟩ := Varint.decode_cut h hcut
  exact ⟨e, takeUnsigned_error herror, he⟩

theorem runsOut_u32 (n : UInt32) : RunsOut readU32 (Varint.encode n.toNat) :=
  (runsOut_unsigned (Nat.lt_trans n.toNat_lt (by decide))).map _

theorem runsOut_u64 (n : UInt64) : RunsOut readU64 (Varint.encode n.toNat) :=
  (runsOut_unsigned n.toNat_lt).map _

theorem runsOut_text {text : String} (h : Fits text) : RunsOut readText (encodeText text) := by
  refine runsOut_ofUnread fun cut hcut => ?_
  obtain ⟨e, herror, he⟩ := takeBlock_cut h hcut
  exact ⟨e, takeText_error herror, he⟩

/-- **Counted items run out within their count or within one of them.** -/
theorem runsOut_counted {item : Decoder α} {encode : α → Bytes} {items : List α}
    (hcount : items.length < Varint.bound 64) (hreads : ∀ a ∈ items, Reads item (encode a) a)
    (hitems : ∀ a ∈ items, RunsOut item (encode a)) :
    RunsOut (readCounted item) (Varint.encode items.length ++ items.flatMap encode) :=
  (runsOut_unsigned hcount).bind (reads_unsigned hcount (by decide))
    (RunsOut.times (fun a ha => (hreads a ha).within) fun a ha => (hitems a ha).within)

/-! ## The end of the data -/

/-- The step does not report the end of the data. -/
def NeverEnds (step : EStateM Error σ α) : Prop := ∀ s s', step s ≠ .error .endOfData s'

/-- **Inside a value that has begun there is no end of the data.** -/
theorem neverEnds_within (step : EStateM Error σ α) : NeverEnds (within step) := by
  intro s s' h
  obtain ⟨e, -, he⟩ := within_eq_error_iff.1 h
  cases e <;> cases he

theorem neverEnds_pure (a : α) : NeverEnds (pure a : EStateM Error σ α) := by
  intro s s' h
  cases h

/-- If only the first step can report the end of the data, the whole does where the first one
does. -/
theorem ends_bind_iff {step : EStateM Error σ α} {f : α → EStateM Error σ β}
    (hf : ∀ a, NeverEnds (f a)) (s : σ) :
    (∃ s', (step >>= f) s = .error .endOfData s') ↔ ∃ s', step s = .error .endOfData s' := by
  cases hstep : step s with
  | ok a s₁ => simpa [bind_of_ok hstep] using fun s' => hf a s₁ s'
  | error e s₁ => simp [bind_of_error hstep]

theorem NeverEnds.bind {step : EStateM Error σ α} {f : α → EStateM Error σ β}
    (hstep : NeverEnds step) (hf : ∀ a, NeverEnds (f a)) : NeverEnds (step >>= f) := by
  intro s s' h
  obtain ⟨s₁, hfirst⟩ := (ends_bind_iff hf s).1 ⟨s', h⟩
  exact hstep s s₁ hfirst

theorem NeverEnds.times {item : EStateM Error σ α} (hitem : NeverEnds item) (count : Nat) :
    NeverEnds (times item count) := by
  induction count with
  | zero => exact neverEnds_pure _
  | succ count ih => exact hitem.bind fun a => ih.bind fun items => neverEnds_pure _

/-- A copy that is all or nothing reports the end of the data where its steps do. -/
theorem ends_atomically_iff {copy : Copier α} (t : Transfer) :
    (∃ t', Copier.atomically copy t = .error .endOfData t') ↔
      ∃ t', copy t = .error .endOfData t' := by
  simp only [Copier.atomically_eq_putBack, putBack_eq_error_iff, exists_eq_left]

/-- Items that run to the end of the data are complete or cut off. -/
theorem neverEnds_readToEnd (item : Decoder α) : NeverEnds (readToEnd item) := by
  intro r
  induction hn : r.remaining using Nat.strongRecOn generalizing r with
  | ind n ih =>
    intro r' h
    rw [readToEnd] at h
    split at h
    · cases h
    split at h
    · rename_i e r₁ hitem
      cases h
      exact neverEnds_within item r _ hitem
    · rename_i first r₁ hitem
      split at h
      · rename_i hlt
        split at h
        · cases h
        · rename_i e r₂ hothers
          cases h
          exact ih r₁.remaining (hn ▸ hlt) r₁ rfl _ hothers
      · cases h

theorem neverEnds_drain (list : CountedList) (item : Decoder Unit) :
    NeverEnds (list.drain item) := by
  rw [CountedList.drain_eq]
  exact ((neverEnds_within item).times _).bind fun _ => neverEnds_pure _

/-- A number cannot begin where no byte is left, and it can everywhere else. -/
theorem Varint.extent_endOfData_iff (block : Bytes) :
    extent block = .error .endOfData ↔ block = [] := by
  unfold extent
  constructor
  · intro h
    split at h
    · rename_i hempty
      exact List.isEmpty_iff.1 hempty
    split at h
    · cases h
    split at h <;> cases h
  · rintro rfl
    rfl

theorem Varint.decode_endOfData_iff (block : Bytes) :
    decode block = .error .endOfData ↔ block = [] := by
  rw [← extent_endOfData_iff]
  cases hextent : extent block with
  | error e =>
    rw [decode_error hextent]
    simp
  | ok n =>
    obtain ⟨bytes, rest, rfl, rfl, hmore⟩ := extent_split hextent
    rw [decode_append (hmore rest)]
    split <;> simp

/-- **A number is the end of the data exactly where no byte is left.** -/
theorem ends_readU64_iff (r : Reader) :
    (∃ r', readU64 r = .error .endOfData r') ↔ r.unread = [] := by
  show (∃ r', (readUnsigned 64 >>= fun n => pure n.toUInt64) r = _) ↔ _
  rw [ends_bind_iff (fun _ => neverEnds_pure _), ← Varint.decode_endOfData_iff]
  unfold readUnsigned ofUnread
  rw [takeUnsigned_64]
  cases Varint.decode r.unread <;> simp

theorem ends_copyVarint_iff (r : Reader) (output : Array UInt8) :
    (∃ t, copyVarints 1 { input := r, output } = .error .endOfData t) ↔ r.unread = [] := by
  unfold copyVarints
  rw [copySpan_eq, varints_one, ← Varint.extent_endOfData_iff]
  cases Varint.extent r.unread <;> simp

end Folio.Codec
