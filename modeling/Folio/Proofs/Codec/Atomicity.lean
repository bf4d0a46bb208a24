import Folio.Codec.Value
import Folio.Proofs.Codec.Exactness

/-! # Steps that leave no trace

A step on encoded data is done or not done.  Some of them find out late that they fail: a number
was read and is too large for its width, a block was announced and is not there, a text is there
and is no UTF-8.  Such a step can take its parts one after another and put everything back when a
later one fails (`putBack`), or it can look at the unread bytes first and move at the end.  Both
come to the same (`readUnsigned_eq`, `readSigned_eq`, `readBlock_eq`, `readText_eq`), as they do for
items in a row, of which the last one may be cut off.

**`failures_leave_no_trace`** says it of every step.  A copy that succeeds has written exactly the
bytes that it passed over, so that of any number of copies the failed ones may be left out of
account (`Copier.Verbatim.calls_output`).
-/
namespace Folio.Codec

variable {α β σ : Type}

/-! ## Failures that leave nothing behind -/

/-- **A failure leaves everything as it was.** -/
def Traceless (step : EStateM Error σ α) : Prop := ∀ s e s', step s = .error e s' → s' = s

theorem traceless_putBack (step : EStateM Error σ α) : Traceless (putBack step) :=
  fun _ _ _ h => (putBack_eq_error_iff.1 h).1

theorem traceless_ofUnread (f : Bytes → Except Error (α × Nat)) :
    Traceless (Decoder.ofUnread f) := by
  intro r e r' h
  unfold Decoder.ofUnread at h
  split at h <;> cases h
  rfl

/-- What a failure is called makes no difference. -/
theorem Traceless.within {step : EStateM Error σ α} (h : Traceless step) :
    Traceless (Codec.within step) := by
  intro s e s' hrun
  obtain ⟨e, hstep, -⟩ := within_eq_error_iff.1 hrun
  exact h s e s' hstep

/-- What is made of a value afterwards cannot fail. -/
theorem Traceless.map {step : EStateM Error σ α} (h : Traceless step) (f : α → β) :
    Traceless (step >>= fun a => pure (f a)) := by
  intro s e s' hrun
  cases hstep : step s with
  | ok a s₁ =>
    rw [bind_of_ok hstep] at hrun
    cases hrun
  | error e₁ s₁ =>
    rw [bind_of_error hstep] at hrun
    cases hrun
    exact h _ _ _ hstep

/-! ## Reads that find out late -/

open Varint (bound)
open Decoder

theorem readUnsigned_of_decode {r : Reader} {n length : Nat}
    (h : Varint.decode r.unread = .ok (n, length)) :
    readUnsigned 64 r = .ok n (r.advance length) :=
  ofUnread_ok (by rw [takeUnsigned_64, h])

/-- **A number is read, and put back if it is too large.** -/
theorem readUnsigned_eq (width : Nat) :
    readUnsigned width = putBack (readUnsigned 64 >>= fun n =>
      if n < bound width then pure n else throw (.overflow width)) := by
  funext r
  cases hdecode : Varint.decode r.unread with
  | error e =>
    have herror (width : Nat) : readUnsigned width r = .error e r :=
      ofUnread_error (takeUnsigned_error hdecode)
    rw [herror, putBack_of_error (bind_of_error (herror 64))]
  | ok number =>
    obtain ⟨n, length⟩ := number
    have htake : takeUnsigned width r.unread =
        if n < bound width then .ok (n, length) else .error (.overflow width) :=
      takeUnsigned_ok hdecode
    unfold putBack
    rw [bind_of_ok (readUnsigned_of_decode hdecode)]
    by_cases hfits : n < bound width
    · rw [if_pos hfits] at htake
      rw [if_pos hfits]
      exact ofUnread_ok htake
    · rw [if_neg hfits] at htake
      rw [if_neg hfits]
      exact ofUnread_error htake

/-- **A signed number is read, and put back if it is too large or too small.** -/
theorem readSigned_eq (width : Nat) :
    readSigned width = putBack (readSigned 64 >>= fun i =>
      if -(bound (width - 1) : Int) ≤ i ∧ i < bound (width - 1) then pure i
      else throw (.overflow width)) := by
  funext r
  cases hdecode : Varint.decode r.unread with
  | error e =>
    have herror (width : Nat) : readSigned width r = .error e r :=
      ofUnread_error (takeSigned_error hdecode)
    rw [herror, putBack_of_error (bind_of_error (herror 64))]
  | ok number =>
    obtain ⟨n, length⟩ := number
    have htake : takeSigned width r.unread = _ := takeSigned_eq hdecode
    have hread : readSigned 64 r = .ok (Varint.unzigzag n) (r.advance length) :=
      ofUnread_ok (takeSigned_ok hdecode)
    unfold putBack
    rw [bind_of_ok hread]
    split_ifs at htake ⊢
    · exact ofUnread_ok htake
    · exact ofUnread_error htake

/-- **A block's length is read, and put back if the block is not there.** -/
theorem readBlock_eq :
    readBlock = putBack (readUnsigned 64 >>= fun size => ofUnread (takeRaw size)) := by
  funext r
  cases hdecode : Varint.decode r.unread with
  | error e =>
    have herror : readUnsigned 64 r = .error e r :=
      ofUnread_error (takeUnsigned_error hdecode)
    rw [putBack_of_error (bind_of_error herror)]
    exact ofUnread_error (takeBlock_error hdecode)
  | ok number =>
    obtain ⟨size, lead⟩ := number
    have htake := takeBlock_eq hdecode
    unfold putBack
    rw [bind_of_ok (readUnsigned_of_decode hdecode)]
    split_ifs at htake with hsize
    · have hraw : takeRaw size (r.advance lead).unread =
          .ok ((r.unread.drop lead).take size, size) := if_pos ((hasAtLeast_iff _ _).2 hsize)
      rw [ofUnread_ok hraw, Reader.advance_advance]
      exact ofUnread_ok htake
    · have hraw : takeRaw size (r.advance lead).unread =
          .error (.truncated size (r.unread.drop lead).length) :=
        if_neg fun h => hsize ((hasAtLeast_iff _ _).1 h)
      rw [ofUnread_error hraw]
      exact ofUnread_error htake

/-- **A text's block is read, and put back if it is no UTF-8.** -/
theorem readText_eq :
    readText = putBack (readBlock >>= fun block =>
      match Utf8.decode block with
      | .ok text => pure text
      | .error fault => throw (.invalidUtf8 fault)) := by
  funext r
  cases hblock : takeBlock r.unread with
  | error e =>
    have herror : readBlock r = .error e r := ofUnread_error hblock
    rw [putBack_of_error (bind_of_error herror)]
    exact ofUnread_error (takeText_error hblock)
  | ok taken =>
    obtain ⟨block, length⟩ := taken
    have hread : readBlock r = .ok block (r.advance length) := ofUnread_ok hblock
    have htext := takeText_eq hblock
    unfold putBack
    rw [bind_of_ok hread]
    cases hutf8 : Utf8.decode block with
    | ok text =>
      rw [hutf8] at htext
      exact ofUnread_ok htext
    | error fault =>
      rw [hutf8] at htext
      exact ofUnread_error htext

/-! ## Values in a row -/

namespace Span

/-- All that is measured is there. -/
def Inside (span : Span) : Prop := ∀ bytes n, span bytes = .ok n → n ≤ bytes.length

variable {first others one : Span} {bytes : Bytes} {n m : Nat} {e : Error}

theorem Inside.andThen (hfirst : first.Inside) (hothers : others.Inside) :
    (first.andThen others).Inside := by
  intro bytes k h
  cases hn : first bytes with
  | error e =>
    rw [andThen_of_error hn] at h
    cases h
  | ok n =>
    rw [andThen_of_ok hn] at h
    cases hm : others (bytes.drop n) with
    | error e =>
      rw [hm] at h
      cases h
    | ok m =>
      rw [hm] at h
      cases h
      have hle := hfirst bytes n hn
      have hle' := hothers _ m hm
      rw [List.length_drop] at hle'
      show n + m ≤ bytes.length
      omega

theorem Inside.row (hone : one.Inside) (count : Nat) : (one.row count).Inside := by
  induction count with
  | zero =>
    intro bytes n h
    cases h
    exact Nat.zero_le _
  | succ count ih => exact hone.andThen ih

theorem inside_varints (count : Nat) : (varints count).Inside := by
  rw [varints_eq_row]
  exact Inside.row (fun _ _ => Varint.extent_le) count

theorem inside_block : Inside block := by
  intro bytes n h
  rw [block_eq] at h
  cases htake : takeBlock bytes with
  | error e =>
    rw [htake] at h
    cases h
  | ok taken =>
    obtain ⟨content, length⟩ := taken
    rw [htake] at h
    cases h
    obtain ⟨front, rest, rfl, rfl, -⟩ := takeBlock_split htake
    rw [List.length_append]
    exact Nat.le_add_right _ _

theorem inside_blocks (count : Nat) : (blocks count).Inside := by
  rw [blocks_eq_row]
  exact inside_block.row count

theorem inside_raw (count : Nat) : Inside (raw count) := by
  intro bytes n h
  unfold raw at h
  split at h <;> cases h
  exact (hasAtLeast_iff _ _).1 ‹_›

end Span

/-! ## Copies -/

/-- **A copy is done or not done.**  It passes over bytes that are there and appends exactly those
to the output; if it fails, input and output are as they were. -/
structure Copier.Verbatim (copy : Copier α) : Prop where
  copied {t t' : Transfer} {a : α} (h : copy t = .ok a t') :
    ∃ n ≤ t.input.remaining, t' = t.copied n
  traceless : Traceless copy

theorem Copier.verbatim_span {span : Span} (hspan : span.Inside) : (copySpan span).Verbatim where
  copied {t t' a} h := by
    rw [copySpan_eq] at h
    split at h
    · rename_i n hn
      cases h
      exact ⟨n, t.input.remaining_eq ▸ hspan _ n hn, rfl⟩
    · cases h
  traceless t e t' h := by
    rw [copySpan_eq] at h
    split at h <;> cases h
    rfl

theorem Copier.verbatim_number : copyNumber.Verbatim where
  copied {t t' n} h := by
    rw [Decoder.copyNumber_eq] at h
    split at h
    · rename_i n' length hdecode
      cases h
      obtain ⟨front, rest, hunread, rfl, -⟩ := Varint.decode_split hdecode
      exact ⟨front.length, Decoder.length_le_remaining hunread, rfl⟩
    · cases h
  traceless t e t' h := by
    rw [Decoder.copyNumber_eq] at h
    split at h <;> cases h
    rfl

/-! ## Failures are passed over -/

/-- The bytes between a position and a later one in the same block. -/
def Reader.upTo (r later : Reader) : Bytes := r.unread.take (later.position - r.position)

/-- Makes a number of copies.  Before each of them the input may be aimed at another place, and one
that fails is passed over.  Tells which bytes the others passed over, and what there is at the
end. -/
def Copier.calls (copy : Copier α) :
    (aims : List (Reader → Reader)) → Transfer → List Bytes × Transfer
  | [], t => ([], t)
  | aim :: aims, t =>
    match copy { t with input := aim t.input } with
    | .ok _ t' =>
      let (spans, final) := calls copy aims t'
      ((aim t.input).upTo t'.input :: spans, final)
    | .error _ t' => calls copy aims t'

namespace Copier.Verbatim

variable {copy : Copier α} {t t' : Transfer} {a : α}

/-- **The output gains the bytes between the old and the new position.** -/
theorem gains (h : copy.Verbatim) (hok : copy t = .ok a t') :
    t'.output = t.output ++ t.input.upTo t'.input := by
  obtain ⟨n, -, rfl⟩ := h.copied hok
  have hn : (t.input.advance n).position - t.input.position = n := Nat.add_sub_cancel_left ..
  rw [Reader.upTo, Transfer.copied, hn]

/-- **The output is what the copies passed over**, however many of them failed. -/
theorem calls_output (h : copy.Verbatim) (aims : List (Reader → Reader)) (t : Transfer) :
    (copy.calls aims t).2.output = t.output ++ (copy.calls aims t).1.flatten := by
  induction aims generalizing t with
  | nil => exact (append_nil t.output).symm
  | cons aim aims ih =>
    rw [Copier.calls]
    cases hcall : copy { t with input := aim t.input } with
    | ok a t' =>
      dsimp only
      rw [ih t', h.gains hcall, List.flatten_cons, append_append]
    | error e t' =>
      dsimp only
      rw [ih t', h.traceless _ _ _ hcall]

end Copier.Verbatim

/-! ## Every step -/

theorem traceless_unsigned (width : Nat) : Traceless (readUnsigned width) := by
  rw [readUnsigned_eq]
  exact traceless_putBack _

theorem traceless_signed (width : Nat) : Traceless (readSigned width) := by
  rw [readSigned_eq]
  exact traceless_putBack _

theorem Kind.traceless_read (kind : Kind) : Traceless kind.read := by
  cases kind with
  | byte => exact (traceless_ofUnread takeByte).map _
  | u16 => exact ((traceless_unsigned 16).map _).map _
  | u32 => exact ((traceless_unsigned 32).map _).map _
  | u64 => exact ((traceless_unsigned 64).map _).map _
  | i16 => exact ((traceless_signed 16).map _).map _
  | i32 => exact ((traceless_signed 32).map _).map _
  | i64 => exact ((traceless_signed 64).map _).map _
  | fixedU32 => exact ((traceless_ofUnread (takeFixed 4)).map _).map _
  | fixedU64 => exact ((traceless_ofUnread (takeFixed 8)).map _).map _
  | block =>
    rw [read, readBlock_eq]
    exact (traceless_putBack _).map _
  | text =>
    rw [read, readText_eq]
    exact (traceless_putBack _).map _

theorem traceless_skipSpan (span : Span) : Traceless (skipSpan span) :=
  (traceless_ofUnread _).map _

/-- **A step that fails leaves no trace**, whatever the data and the arguments are: neither the
read of a value, nor a skip or a copy of any number of items, nor the start of a counted list.  A
copy that succeeds appends to the output exactly the bytes that it passes over. -/
theorem failures_leave_no_trace :
    (∀ kind : Kind, Traceless kind.read) ∧
    (∀ count, Traceless (skipVarints count) ∧ Traceless (skipBlocks count) ∧
      Traceless (skipRaw count)) ∧
    Traceless CountedList.start ∧
    (∀ count, (copyVarints count).Verbatim ∧ (copyBlocks count).Verbatim ∧
      (copyRaw count).Verbatim) ∧
    copyNumber.Verbatim := by
  refine ⟨Kind.traceless_read, fun count => ⟨traceless_skipSpan _, traceless_skipSpan _,
    traceless_skipSpan _⟩, (traceless_unsigned 64).map _, fun count => ?_, Copier.verbatim_number⟩
  exact ⟨Copier.verbatim_span (Span.inside_varints count),
    Copier.verbatim_span (Span.inside_blocks count), Copier.verbatim_span (Span.inside_raw count)⟩

/-- Of two numbers that are to be copied the second one is cut off. -/
example : copyVarints 2 { input := Reader.ofBytes [5, 128], output := #[9] } =
    .error (.truncated 2 1) { input := Reader.ofBytes [5, 128], output := #[9] } := rfl

end Folio.Codec
