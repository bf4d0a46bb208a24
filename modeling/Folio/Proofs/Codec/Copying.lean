import Folio.Codec.Counted
import Folio.Proofs.Codec.Extent
import Folio.Proofs.Codec.Reads
import Folio.Proofs.Codec.Rows

/-! # Copying beside decoding

A copier passes over encoded values without evaluating them, so it can come further than the
decoder of the same values, but it never comes to another place: `Follows d c R r` lists what
the two can come to at `r`.  Copiers and decoders that are put together from parts that follow
one another do so themselves (`CopiedBy.bind`), which leaves the single values.
**`Copier.Agrees`** is what this means for a copy that is all or nothing.
-/
namespace Folio.Codec

variable {α β γ δ ε : Type} {σ : Type}

/-! ## Inside a value that has begun -/

theorem within_bind (step : EStateM Error σ α) (f : α → EStateM Error σ β) :
    within (step >>= f) = within step >>= fun a => within (f a) := by
  funext s
  show within (EStateM.bind step f) s = EStateM.bind (within step) (fun a => within (f a)) s
  simp only [within, EStateM.bind]
  cases step s <;> rfl

theorem within_pure (a : α) : within (pure a : EStateM Error σ α) = pure a := rfl

theorem within_within (step : EStateM Error σ α) : within (within step) = within step := by
  funext s
  simp only [within]
  cases step s with
  | ok a s' => rfl
  | error e s' => exact congrArg (EStateM.Result.error · s') e.within_within

/-- The errors of a list are those inside its items. -/
theorem within_times (item : EStateM Error σ α) (count : Nat) :
    within (times (within item) count) = times (within item) count := by
  induction count with
  | zero => rfl
  | succ count ih => simp only [times, within_bind, within_within, within_pure, ih]

theorem within_atomically (copy : Copier α) :
    within (Copier.atomically copy) = Copier.atomically (within copy) := by
  funext t
  simp only [within, Copier.atomically]
  cases copy t <;> rfl

/-! ## Passing over bytes -/

/-- Where `bytes` stand, the decoder fails with `e`. -/
def Decoder.Fails (d : Decoder α) (bytes : Bytes) (e : Error) : Prop :=
  ∀ (r : Reader) (rest : Bytes), r.unread = bytes ++ rest → ∃ r', d r = .error e r'

/-- Where `bytes` stand, the copier passes over them and writes them. -/
def Copier.Copies (c : Copier β) (bytes : Bytes) (b : β) : Prop :=
  ∀ (t : Transfer) (rest : Bytes), t.input.unread = bytes ++ rest →
    c t = .ok b { input := t.input.advance bytes.length, output := t.output ++ bytes }

/-- The copier fails at `r` with `e`. -/
def Copier.FailsAt (c : Copier β) (r : Reader) (e : Error) : Prop :=
  ∀ output, ∃ t, c { input := r, output } = .error e t

/-- **What a decoder and a copier of the same values come to.**  The values that they pass on are
related by `R`. -/
inductive Follows (d : Decoder α) (c : Copier β) (R : α → β → Prop) (r : Reader) : Prop
  /-- Both pass over the same bytes. -/
  | passed {bytes rest : Bytes} {a : α} {b : β} (unread : r.unread = bytes ++ rest)
      (reads : d.Reads bytes a) (copies : c.Copies bytes b) (related : R a b) : Follows d c R r
  /-- The data runs out for both. -/
  | ranOut {e : Error} {r' : Reader} (short : e.RanOut) (decoding : d r = .error e r')
      (copying : c.FailsAt r e) : Follows d c R r
  /-- The copier passes over bytes that the decoder refuses, and goes on as if they were read. -/
  | refused {bytes rest : Bytes} {e : Error} {a : α} {b : β} (unread : r.unread = bytes ++ rest)
      (refuses : e.Refuses) (fails : d.Fails bytes e) (copies : c.Copies bytes b)
      (related : R a b) : Follows d c R r
  /-- The decoder refuses the bytes, and the copier fails as well. -/
  | damaged {e e' : Error} {r' : Reader} (refuses : e.Refuses) (decoding : d r = .error e r')
      (copying : c.FailsAt r e') : Follows d c R r

/-- The copier copies what the decoder reads. -/
def Decoder.CopiedBy (d : Decoder α) (c : Copier β) (R : α → β → Prop) : Prop :=
  ∀ r, Follows d c R r

section
variable {d : Decoder α} {f : α → Decoder γ} {c : Copier β} {g : β → Copier δ}
  {bytes more rest : Bytes} {a : α} {b : β} {e : Error} {r : Reader}

/-! ### One after another -/

theorem Copier.Copies.pure (b : β) : Copies (Pure.pure b) [] b :=
  fun _ _ _ => by rw [append_nil]; rfl

theorem Copier.Copies.bind_eq {t : Transfer} (hc : c.Copies bytes b) (g : β → Copier δ)
    (ht : t.input.unread = bytes ++ rest) :
    (c >>= g) t =
      g b { input := t.input.advance bytes.length, output := t.output ++ bytes } :=
  bind_of_ok (hc t rest ht)

theorem Copier.Copies.bind {b' : δ} (hc : c.Copies bytes b) (hg : (g b).Copies more b') :
    (c >>= g).Copies (bytes ++ more) b' := by
  intro t rest ht
  rw [List.append_assoc] at ht
  rw [hc.bind_eq g ht, hg _ rest (Reader.unread_advance ht), Reader.advance_advance,
    append_append, List.length_append]

theorem Copier.FailsAt.bind (hc : c.FailsAt r e) (g : β → Copier δ) : (c >>= g).FailsAt r e := by
  intro output
  obtain ⟨t, ht⟩ := hc output
  exact ⟨t, bind_of_error ht⟩

/-- What is copied first is behind the reader when the rest fails. -/
theorem Copier.FailsAt.after (hc : c.Copies bytes b) (hr : r.unread = bytes ++ rest)
    (hg : (g b).FailsAt (r.advance bytes.length) e) : (c >>= g).FailsAt r e := by
  intro output
  obtain ⟨t, ht⟩ := hg (output ++ bytes)
  exact ⟨t, (hc.bind_eq (t := { input := r, output }) g hr).trans ht⟩

theorem Copier.Copies.within (hc : c.Copies bytes b) : Copies (Codec.within c) bytes b := by
  intro t rest ht
  rw [Codec.within, hc t rest ht]

theorem Copier.FailsAt.within (hc : c.FailsAt r e) : FailsAt (Codec.within c) r e.within := by
  intro output
  obtain ⟨t, ht⟩ := hc output
  exact ⟨t, by rw [Codec.within, ht]⟩

theorem Copier.Copies.atomically (hc : c.Copies bytes b) :
    (Copier.atomically c).Copies bytes b := by
  intro t rest ht
  rw [Copier.atomically, hc t rest ht]

theorem Copier.FailsAt.atomically (hc : c.FailsAt r e) : (Copier.atomically c).FailsAt r e := by
  intro output
  obtain ⟨t, ht⟩ := hc output
  exact ⟨_, by rw [Copier.atomically, ht]⟩

/-- Bytes that are refused are refused with more behind them. -/
theorem Decoder.Fails.bind (hd : d.Fails bytes e) (f : α → Decoder γ) (more : Bytes) :
    (d >>= f).Fails (bytes ++ more) e := by
  intro r rest hr
  rw [List.append_assoc] at hr
  obtain ⟨r', hfail⟩ := hd r _ hr
  exact ⟨r', bind_of_error hfail⟩

theorem Decoder.Fails.after (hd : d.Reads bytes a) (hf : (f a).Fails more e) :
    (d >>= f).Fails (bytes ++ more) e := by
  intro r rest hr
  rw [List.append_assoc] at hr
  obtain ⟨r', hfail⟩ := hf _ rest (Reader.unread_advance hr)
  exact ⟨r', (hd.bind_eq f hr).trans hfail⟩

/-- Bytes that follow bytes. -/
theorem unread_append {rest' : Bytes} (hr : r.unread = bytes ++ rest)
    (hmore : (r.advance bytes.length).unread = more ++ rest') :
    r.unread = (bytes ++ more) ++ rest' := by
  rw [Reader.unread_advance hr] at hmore
  rw [hr, hmore, List.append_assoc]

/-- What follows bytes that both pass over decides what both come to. -/
theorem Follows.after {S : γ → δ → Prop} (hr : r.unread = bytes ++ rest) (hd : d.Reads bytes a)
    (hc : c.Copies bytes b) (hf : Follows (f a) (g b) S (r.advance bytes.length)) :
    Follows (d >>= f) (c >>= g) S r := by
  cases hf with
  | passed unread reads copies related =>
    exact .passed (unread_append hr unread) (hd.bind reads) (hc.bind copies) related
  | ranOut short decoding copying =>
    exact .ranOut short ((hd.bind_eq f hr).trans decoding) (copying.after hc hr)
  | refused unread refuses fails copies related =>
    exact .refused (unread_append hr unread) refuses (fails.after hd) (hc.bind copies) related
  | damaged refuses decoding copying =>
    exact .damaged refuses ((hd.bind_eq f hr).trans decoding) (copying.after hc hr)

/-- Once bytes are refused the decoder has failed, however far the copier comes. -/
theorem Follows.beyond {S : γ → δ → Prop} {a : α} (hr : r.unread = bytes ++ rest) (he : e.Refuses)
    (hd : d.Fails bytes e) (hc : c.Copies bytes b)
    (hf : Follows (f a) (g b) S (r.advance bytes.length)) : Follows (d >>= f) (c >>= g) S r := by
  obtain ⟨r', hfail⟩ := hd r rest hr
  have hfailed : (d >>= f) r = .error e r' := bind_of_error hfail
  cases hf with
  | passed unread reads copies related =>
    exact .refused (unread_append hr unread) he (hd.bind f _) (hc.bind copies) related
  | ranOut short decoding copying => exact .damaged he hfailed (copying.after hc hr)
  | refused unread refuses fails copies related =>
    exact .refused (unread_append hr unread) he (hd.bind f _) (hc.bind copies) related
  | damaged refuses decoding copying => exact .damaged he hfailed (copying.after hc hr)

end

namespace Decoder

variable {d : Decoder α} {c : Copier β} {R : α → β → Prop}

/-- **Parts that follow one another make wholes that do.** -/
theorem CopiedBy.bind {f : α → Decoder γ} {g : β → Copier δ} {S : γ → δ → Prop}
    (hd : d.CopiedBy c R) (hf : ∀ a b, R a b → (f a).CopiedBy (g b) S) :
    (d >>= f).CopiedBy (c >>= g) S := by
  intro r
  cases hd r with
  | passed unread reads copies related =>
    exact .after unread reads copies (hf _ _ related _)
  | ranOut short decoding copying =>
    exact .ranOut short (bind_of_error decoding) (copying.bind g)
  | refused unread refuses fails copies related =>
    exact .beyond unread refuses fails copies (hf _ _ related _)
  | damaged refuses decoding copying =>
    exact .damaged refuses (bind_of_error decoding) (copying.bind g)

theorem copiedBy_pure {a : α} {b : β} (h : R a b) : (pure a : Decoder α).CopiedBy (pure b) R :=
  fun r => .passed (List.nil_append r.unread).symm (Reads.pure a) (.pure b) h

/-- What is made of the values afterwards takes no bytes. -/
theorem CopiedBy.map {S : γ → β → Prop} (hd : d.CopiedBy c R) (f : α → γ)
    (h : ∀ a b, R a b → S (f a) b) : (d >>= fun a => Pure.pure (f a)).CopiedBy c S := by
  have hboth := hd.bind (S := S) (f := fun a => Pure.pure (f a)) (g := fun b => Pure.pure b)
    fun a b hab => copiedBy_pure (h a b hab)
  rwa [bind_pure] at hboth

theorem CopiedBy.within (hd : d.CopiedBy c R) : CopiedBy (Codec.within d) (Codec.within c) R := by
  intro r
  cases hd r with
  | passed unread reads copies related =>
    exact .passed unread reads.within copies.within related
  | ranOut short decoding copying =>
    exact .ranOut short.within (by rw [Codec.within, decoding]) copying.within
  | @refused _ _ e a _ unread refuses fails copies related =>
    refine .refused (a := a) unread refuses (fun r rest hr => ?_) copies.within related
    obtain ⟨r', hfail⟩ := fails r rest hr
    exact ⟨r', by simp only [Codec.within, hfail, refuses.within_eq]⟩
  | @damaged e _ r' refuses decoding copying =>
    have hd : Codec.within d r = .error e r' := by
      simp only [Codec.within, decoding, refuses.within_eq]
    exact .damaged refuses hd copying.within

/-- A copy that is all or nothing comes as far, or fails in the same way. -/
theorem CopiedBy.atomically (hd : d.CopiedBy c R) : d.CopiedBy (Copier.atomically c) R := by
  intro r
  cases hd r with
  | passed unread reads copies related => exact .passed unread reads copies.atomically related
  | ranOut short decoding copying => exact .ranOut short decoding copying.atomically
  | refused unread refuses fails copies related =>
    exact .refused unread refuses fails copies.atomically related
  | damaged refuses decoding copying => exact .damaged refuses decoding copying.atomically

/-- **Lists are copied item by item.** -/
theorem CopiedBy.times {item : Decoder α} {copy : Copier β} (hitem : item.CopiedBy copy R)
    (count : Nat) :
    CopiedBy (Codec.times item count) (Codec.times copy count) fun as _ => as.length = count := by
  induction count with
  | zero => exact copiedBy_pure rfl
  | succ count ih =>
    refine hitem.bind fun a b _ => ih.bind fun as bs has => copiedBy_pure ?_
    rw [List.length_cons, has]

end Decoder

/-! ## Single values -/

theorem copySpan_copies {span : Span} {bytes : Bytes}
    (h : ∀ more, span (bytes ++ more) = .ok bytes.length) : (copySpan span).Copies bytes () := by
  intro t rest ht
  rw [copySpan_eq, ht, h rest]
  simp only [List.take_left]

theorem copySpan_failsAt {span : Span} {r : Reader} {e : Error} (h : span r.unread = .error e) :
    (copySpan span).FailsAt r e := by
  intro output
  exact ⟨_, by rw [copySpan_eq, h]⟩

namespace Decoder

open Varint (bound)

/-- What a decoder finds in the unread bytes is an error at the reader. -/
theorem ofUnread_error {f : Bytes → Except Error (α × Nat)} {r : Reader} {e : Error}
    (h : f r.unread = .error e) : ofUnread f r = .error e r := by
  unfold ofUnread
  rw [h]

theorem ofUnread_ok {f : Bytes → Except Error (α × Nat)} {r : Reader} {a : α} {n : Nat}
    (h : f r.unread = .ok (a, n)) : ofUnread f r = .ok a (r.advance n) := by
  rw [ofUnread, h]

theorem ofUnread_fails {f : Bytes → Except Error (α × Nat)} {bytes : Bytes} {e : Error}
    (h : ∀ more, f (bytes ++ more) = .error e) : (ofUnread f).Fails bytes e := by
  intro r rest hr
  exact ⟨r, ofUnread_error (by rw [hr, h])⟩

/-- At bytes that fail in the same way for both, the kind of the error decides. -/
theorem follows_of_error {d : Decoder α} {c : Copier β} {R : α → β → Prop} {r r' : Reader}
    {e : Error} (hkind : e.RanOut ∨ e.Refuses) (hd : d r = .error e r') (hc : c.FailsAt r e) :
    Follows d c R r := by
  rcases hkind with hshort | hrefuses
  · exact .ranOut hshort hd hc
  · exact .damaged hrefuses hd hc

theorem takeUnsigned_error {width : Nat} {block : Bytes} {e : Error}
    (h : Varint.decode block = .error e) : takeUnsigned width block = .error e := by
  unfold takeUnsigned
  rw [h]
  rfl

theorem takeUnsigned_ok {width n length : Nat} {block : Bytes}
    (h : Varint.decode block = .ok (n, length)) :
    takeUnsigned width block =
      if n < bound width then .ok (n, length) else .error (.overflow width) := by
  unfold takeUnsigned
  rw [h]
  rfl

/-- Every number that is read fits into 64 bits. -/
theorem takeUnsigned_64 : takeUnsigned 64 = Varint.decode := by
  funext bytes
  cases hdecode : Varint.decode bytes with
  | error e => exact takeUnsigned_error hdecode
  | ok found => exact (takeUnsigned_ok hdecode).trans (if_pos (Varint.lt_bound_of_decode hdecode))

theorem varints_one (block : Bytes) : Span.varints 1 block = Varint.extent block := by
  unfold Span.varints
  cases Varint.extent block <;> rfl

theorem blocks_one (block : Bytes) : Span.blocks 1 block = Span.block block := by
  unfold Span.blocks
  cases Span.block block <;> rfl

/-- **A number is copied as it stands**, whether it fits or not. -/
theorem copiedBy_unsigned (width : Nat) :
    (readUnsigned width).CopiedBy (copyVarints 1) fun _ _ => True := by
  intro r
  cases hextent : Varint.extent r.unread with
  | error e =>
    have hdecode := Varint.decode_error hextent
    exact follows_of_error (Varint.extent_error hextent)
      (ofUnread_error (takeUnsigned_error hdecode))
      (copySpan_failsAt ((varints_one _).trans hextent))
  | ok n =>
    obtain ⟨bytes, rest, hunread, rfl, hmore⟩ := Varint.extent_split hextent
    have hcopies : (copyVarints 1).Copies bytes () :=
      copySpan_copies fun more => (varints_one _).trans (hmore more)
    by_cases hfits : Varint.value bytes < bound 64
    · have hdecode (more : Bytes) := (Varint.decode_append (hmore more)).trans (if_pos hfits)
      by_cases hnarrow : Varint.value bytes < bound width
      · exact .passed hunread
          (reads_ofUnread fun more => (takeUnsigned_ok (hdecode more)).trans (if_pos hnarrow))
          hcopies trivial
      · exact .refused (e := .overflow width) (a := 0) hunread trivial
          (ofUnread_fails fun more => (takeUnsigned_ok (hdecode more)).trans (if_neg hnarrow))
          hcopies trivial
    · have hdecode (more : Bytes) := (Varint.decode_append (hmore more)).trans (if_neg hfits)
      exact .refused (e := .overflow 64) (a := 0) hunread trivial
        (ofUnread_fails fun more => takeUnsigned_error (hdecode more)) hcopies trivial

theorem copiedBy_u64 : readU64.CopiedBy (copyVarints 1) fun _ _ => True :=
  (copiedBy_unsigned 64).map _ fun _ _ _ => trivial

theorem copiedBy_u32 : readU32.CopiedBy (copyVarints 1) fun _ _ => True :=
  (copiedBy_unsigned 32).map _ fun _ _ _ => trivial

theorem copyNumber_eq (t : Transfer) :
    copyNumber t =
      match Varint.decode t.input.unread with
      | .ok (n, length) => .ok n
          { input := t.input.advance length, output := t.output ++ t.input.unread.take length }
      | .error e => .error e t := by
  show EStateM.bind (Copier.reading (.ofUnread _)) _ t = _
  simp only [EStateM.bind, Copier.reading, Decoder.ofUnread]
  cases Varint.decode t.input.unread <;> rfl

/-- **A count is copied and evaluated.** -/
theorem copiedBy_count : (readUnsigned 64).CopiedBy copyNumber fun n m => n = m := by
  intro r
  cases hdecode : Varint.decode r.unread with
  | error e =>
    exact follows_of_error (Varint.error_of_decode hdecode)
      (ofUnread_error (takeUnsigned_error hdecode))
      fun output => ⟨_, by rw [copyNumber_eq, hdecode]⟩
  | ok number =>
    obtain ⟨n, length⟩ := number
    have hfits := Varint.lt_bound_of_decode hdecode
    obtain ⟨bytes, rest, hunread, rfl, hmore⟩ := Varint.decode_split hdecode
    refine .passed hunread
      (reads_ofUnread fun more => (takeUnsigned_ok (hmore more)).trans (if_pos hfits))
      (fun t rest ht => ?_) rfl
    rw [copyNumber_eq, ht, hmore rest]
    simp only [List.take_left]

/-- **A text is copied as it stands**, whether it is UTF-8 or not. -/
theorem copiedBy_text : readText.CopiedBy (copyBlocks 1) fun _ _ => True := by
  intro r
  have hspan (block : Bytes) : Span.blocks 1 block = (takeBlock block).map (·.2) :=
    (blocks_one block).trans (Span.block_eq block)
  cases hblock : takeBlock r.unread with
  | error e =>
    refine follows_of_error (error_of_takeBlock hblock) (ofUnread_error (takeText_error hblock))
      (copySpan_failsAt ?_)
    rw [hspan, hblock]
    rfl
  | ok block =>
    obtain ⟨content, n⟩ := block
    obtain ⟨bytes, rest, hunread, rfl, hmore⟩ := takeBlock_split hblock
    have hcopies : (copyBlocks 1).Copies bytes () :=
      copySpan_copies fun more => by rw [hspan, hmore]; rfl
    have htext (more : Bytes) := takeText_eq (hmore more)
    cases hutf8 : Utf8.decode content with
    | ok text =>
      exact .passed (a := text) hunread (reads_ofUnread fun more => by rw [htext, hutf8]; rfl)
        hcopies trivial
    | error fault =>
      exact .refused (e := .invalidUtf8 fault) (a := "") hunread trivial
        (ofUnread_fails fun more => by rw [htext, hutf8]; rfl) hcopies trivial

/-- A byte that is missing is missing for both, inside a value that has begun. -/
theorem copiedBy_byte :
    CopiedBy (Codec.within readByte) (Codec.within (copyRaw 1)) fun _ _ => True := by
  intro r
  cases hunread : r.unread with
  | nil =>
    have hread : readByte r = .error .endOfData r := ofUnread_error (by rw [hunread]; rfl)
    have hspan : Span.raw 1 r.unread = .error (.truncated 1 0) := by rw [hunread]; rfl
    have hwithin : Codec.within readByte r = .error (.truncated 1 0) r := by
      rw [Codec.within, hread]
      rfl
    have hcopy : Copier.FailsAt (Codec.within (copyRaw 1)) r (.truncated 1 0) :=
      (copySpan_failsAt hspan).within
    exact .ranOut (e := .truncated 1 0) trivial hwithin hcopy
  | cons b rest =>
    have hcopies : (copyRaw 1).Copies [b] () := copySpan_copies fun more => rfl
    exact .passed (hunread.trans (List.singleton_append (l := rest)).symm) (reads_byte b).within
      hcopies.within trivial

/-! ## Counted texts -/

end Decoder

/-- Inside a value, copying some blocks at once is copying them one after another. -/
theorem copyBlocks_succ (count : Nat) :
    within (copyBlocks (count + 1)) =
      Copier.atomically (within (copyBlocks 1) >>= fun _ => within (copyBlocks count)) := by
  have hone : Span.blocks 1 = Span.block := funext Decoder.blocks_one
  have hrow : Span.blocks (count + 1) = .andThen Span.block (.blocks count) := rfl
  have hinside := within_within (copySpan (.blocks count))
  unfold copyBlocks
  rw [hone, hrow, copySpan_andThen, within_atomically, within_bind, hinside]

namespace Decoder

/-- Texts are read one by one and copied all at once. -/
theorem copiedBy_texts (count : Nat) :
    CopiedBy (times (Codec.within readText) count) (Codec.within (copyBlocks count))
      fun _ _ => True := by
  induction count with
  | zero =>
    have hcopies : (copyBlocks 0).Copies [] () := copySpan_copies fun _ => rfl
    exact fun r => .passed (List.nil_append r.unread).symm (Reads.pure []) hcopies.within trivial
  | succ count ih =>
    rw [copyBlocks_succ]
    exact (copiedBy_text.within.bind fun _ _ _ => ih.map _ fun _ _ _ => trivial).atomically

/-- **Counted texts are copied**, inside a value that has begun. -/
theorem copiedBy_countedTexts :
    CopiedBy (Codec.within (readCounted readText)) (Codec.within (copyNumber >>= copyBlocks))
      fun _ _ => True := by
  unfold readCounted readTimes
  rw [within_bind, within_bind]
  refine copiedBy_count.within.bind fun n m hcount => ?_
  subst hcount
  rw [within_times]
  exact copiedBy_texts n

/-- **Counted items are copied and counted**, inside a value that has begun. -/
theorem copiedBy_counted {item : Decoder α} {copy : Copier β} {R : α → β → Prop}
    (hitem : CopiedBy (Codec.within item) (Codec.within copy) R) :
    CopiedBy (Codec.within (readCounted item))
      (do
        let count ← Codec.within copyNumber
        let _ ← times (Codec.within copy) count
        return count)
      fun items count => count = items.length := by
  unfold readCounted readTimes
  rw [within_bind]
  refine copiedBy_count.within.bind fun n m hcount => ?_
  subst hcount
  rw [within_times, ← bind_pure (times (Codec.within item) n)]
  exact (hitem.times n).bind fun items _ hlength => copiedBy_pure hlength.symm

end Decoder

/-! ## Copies that are all or nothing -/

/-- What the decoder finds at `r`, wherever it stops. -/
def Decoder.outcome (d : Decoder α) (r : Reader) : Except Error α :=
  match d r with
  | .ok a _ => .ok a
  | .error e _ => .error e

/-- **A copy agrees with decoding**: `tally` is what the copy tells of the value. -/
structure Copier.Agrees (c : Copier β) (d : Decoder α) (tally : α → β) : Prop where
  /-- What is decoded is copied: the same bytes are passed over, and those are written. -/
  copied {r r' : Reader} {a : α} (h : d r = .ok a r') : ∃ k ≤ r.remaining, r' = r.advance k ∧
    ∀ output, c { input := r, output } =
      .ok (tally a) { input := r', output := output ++ r.unread.take k }
  /-- Where the data runs out, the copy says the same and leaves everything as it was. -/
  short {r r' : Reader} {e : Error} (h : d r = .error e r') (he : e.RanOut) (output : Array UInt8) :
    c { input := r, output } = .error e { input := r, output }
  /-- Every copy is of bytes that decode alone as they do where they stand; if they do not, they
  are refused in both places. -/
  alone {r : Reader} {output : Array UInt8} {b : β} {t : Transfer}
    (h : c { input := r, output } = .ok b t) :
    ∃ k ≤ r.remaining, t = { input := r.advance k, output := output ++ r.unread.take k } ∧
      d.outcome (Reader.ofBytes (r.unread.take k)) = d.outcome r ∧
      ∀ e, d.outcome r = .error e → e.Refuses

theorem Copier.eq_of_atomically {c : Copier β} {t t' : Transfer} {e : Error}
    (h : Copier.atomically c t = .error e t') : t' = t := by
  rw [Copier.atomically_eq_putBack, putBack_eq_error_iff] at h
  exact h.1

namespace Decoder

variable {d : Decoder α} {c : Copier β} {bytes rest : Bytes} {r r' : Reader} {a : α} {e : Error}

theorem Reads.outcome_eq (h : d.Reads bytes a) (hr : r.unread = bytes ++ rest) :
    d.outcome r = .ok a := by
  rw [outcome, h r rest hr]

theorem Fails.outcome_eq (h : d.Fails bytes e) (hr : r.unread = bytes ++ rest) :
    d.outcome r = .error e := by
  obtain ⟨r', hfail⟩ := h r rest hr
  rw [outcome, hfail]

theorem outcome_of_error (h : d r = .error e r') : d.outcome r = .error e := by
  rw [outcome, h]

/-- Bytes at the head of what is unread are no more than remain. -/
theorem length_le_remaining (hr : r.unread = bytes ++ rest) : bytes.length ≤ r.remaining := by
  rw [r.remaining_eq, hr, List.length_append]
  exact Nat.le_add_right _ _

/-- Bytes that decide on the outcome decide on it alone. -/
theorem outcome_alone {x : Except Error α}
    (hdecide : ∀ {r : Reader} {rest : Bytes}, r.unread = bytes ++ rest → d.outcome r = x)
    (hr : r.unread = bytes ++ rest) :
    d.outcome (Reader.ofBytes (r.unread.take bytes.length)) = d.outcome r := by
  rw [hdecide hr, hr, List.take_left]
  exact hdecide (List.append_nil bytes).symm

/-- **What copies a decoder's values agrees with it**, once it is all or nothing. -/
theorem CopiedBy.agrees {tally : α → β} (hd : d.CopiedBy c fun a b => b = tally a) :
    (Copier.atomically c).Agrees d tally where
  copied {r r' a} h := by
    have hok : d.outcome r = .ok a := by rw [outcome, h]
    cases hd.atomically r with
    | @passed bytes rest a' b unread reads copies related =>
      rw [reads r rest unread] at h
      cases h
      refine ⟨bytes.length, length_le_remaining unread, rfl, fun output => ?_⟩
      rw [copies _ rest unread, related, unread, List.take_left]
    | ranOut _ decoding _ => simp [outcome_of_error decoding] at hok
    | refused unread _ fails _ _ => simp [fails.outcome_eq unread] at hok
    | damaged _ decoding _ => simp [outcome_of_error decoding] at hok
  short {r r' e} h he output := by
    have herror := outcome_of_error h
    cases hd.atomically r with
    | passed unread reads _ _ => simp [reads.outcome_eq unread] at herror
    | ranOut _ decoding copying =>
      rw [outcome_of_error decoding] at herror
      cases herror
      obtain ⟨t, ht⟩ := copying output
      rw [ht, Copier.eq_of_atomically ht]
    | refused unread refuses fails _ _ =>
      rw [fails.outcome_eq unread] at herror
      cases herror
      exact (refuses.not_ranOut he).elim
    | damaged refuses decoding _ =>
      rw [outcome_of_error decoding] at herror
      cases herror
      exact (refuses.not_ranOut he).elim
  alone {r output b t} h := by
    cases hd.atomically r with
    | @passed bytes rest a b' unread reads copies related =>
      rw [copies _ rest unread] at h
      cases h
      refine ⟨bytes.length, length_le_remaining unread, ?_, outcome_alone reads.outcome_eq unread,
        fun e he => ?_⟩
      · rw [unread, List.take_left]
      · rw [reads.outcome_eq unread] at he
        cases he
    | ranOut _ _ copying =>
      obtain ⟨t', ht⟩ := copying output
      rw [ht] at h
      cases h
    | @refused bytes rest e a b' unread refuses fails copies related =>
      rw [copies _ rest unread] at h
      cases h
      refine ⟨bytes.length, length_le_remaining unread, ?_, outcome_alone fails.outcome_eq unread,
        fun e' he => ?_⟩
      · rw [unread, List.take_left]
      · rw [fails.outcome_eq unread] at he
        cases he
        exact refuses
    | damaged _ _ copying =>
      obtain ⟨t', ht⟩ := copying output
      rw [ht] at h
      cases h

end Decoder

end Folio.Codec
