import Folio.Proofs.Codec.Exactness

/-! # What bytes can be read as

`Reads` starts from a value and says that its bytes are read back.  Here it is the bytes that are
given, by whomever they were written.  A grammar says without a reader which bytes spell which
value, and `d.Parses S` says that `d` reads exactly what `S` allows: any spelling at the head of
what is unread, and nothing else.  The grammar of a compound value follows the definition of its
decoder.

A value has many spellings, since a number may be written with more groups than it needs.  None is
shorter than the one that is written (`Varint.Spells.length_le`).
-/
namespace Folio.Codec

variable {α β : Type}

/-- **The decoder reads what the grammar allows**, and stops behind it. -/
def Decoder.Parses (d : Decoder α) (S : Bytes → α → Prop) : Prop :=
  ∀ (r : Reader) (a : α) (r' : Reader), d r = .ok a r' ↔
    ∃ code, code <+: r.unread ∧ S code a ∧ r' = r.advance code.length

/-- The bytes of any number of values, one after another. -/
inductive Series (S : Bytes → α → Prop) : Bytes → List α → Prop
  | nil : Series S [] []
  | cons {front more : Bytes} {a : α} {items : List α} (first : S front a)
      (others : Series S more items) : Series S (front ++ more) (a :: items)

namespace Decoder

variable {S : Bytes → α → Prop} {d : Decoder α}

/-- What the grammar allows is read wherever it stands. -/
theorem Parses.reads (hd : d.Parses S) {code : Bytes} {a : α} (h : S code a) : Reads d code a := by
  intro r rest hr
  exact (hd r a _).2 ⟨code, ⟨rest, hr.symm⟩, h, rfl⟩

theorem parses_ofUnread {f : Bytes → Except Error (α × Nat)}
    (hf : ∀ block a n, f block = .ok (a, n) ↔
      ∃ code, code <+: block ∧ S code a ∧ n = code.length) : (ofUnread f).Parses S := by
  intro r a r'
  unfold ofUnread
  cases hread : f r.unread with
  | error e =>
    refine ⟨fun h => by (cases h), fun ⟨code, hcode, h, _⟩ => ?_⟩
    rw [(hf _ _ _).2 ⟨code, hcode, h, rfl⟩] at hread
    cases hread
  | ok read =>
    obtain ⟨b, n⟩ := read
    constructor
    · intro h
      obtain ⟨code, hcode, hS, rfl⟩ := (hf _ _ _).1 hread
      cases h
      exact ⟨code, hcode, hS, rfl⟩
    · rintro ⟨code, hcode, h, rfl⟩
      rw [(hf _ _ _).2 ⟨code, hcode, h, rfl⟩] at hread
      cases hread
      rfl

theorem Parses.within (hd : d.Parses S) : Parses (Codec.within d) S := by
  intro r a r'
  rw [← hd r a r', within_eq_ok_iff]

theorem parses_pure (a : α) : Parses (pure a) fun code b => code = [] ∧ b = a := by
  intro r b r'
  constructor
  · intro h
    cases h
    exact ⟨[], List.nil_prefix, ⟨rfl, rfl⟩, rfl⟩
  · rintro ⟨code, -, ⟨rfl, rfl⟩, rfl⟩
    rfl

/-- One value after another, where what comes second may depend on the first. -/
theorem Parses.bind {T : α → Bytes → β → Prop} {f : α → Decoder β} (hd : d.Parses S)
    (hf : ∀ a, (f a).Parses (T a)) :
    (d >>= f).Parses fun code b =>
      ∃ front more a, code = front ++ more ∧ S front a ∧ T a more b := by
  intro r b r'
  rw [bind_eq_ok_iff]
  constructor
  · rintro ⟨a, now, hfirst, hsecond⟩
    obtain ⟨front, ⟨rest, hrest⟩, hS, rfl⟩ := (hd _ _ _).1 hfirst
    obtain ⟨more, hmore, hT, rfl⟩ := (hf _ _ _ _).1 hsecond
    rw [Reader.unread_advance hrest.symm] at hmore
    refine ⟨front ++ more, ?_, ⟨front, more, a, rfl, hS, hT⟩, ?_⟩
    · rw [← hrest]
      exact (List.prefix_append_right_inj front).2 hmore
    · rw [Reader.advance_advance, List.length_append]
  · rintro ⟨code, ⟨rest, hrest⟩, ⟨front, more, a, rfl, hS, hT⟩, rfl⟩
    rw [List.append_assoc] at hrest
    refine ⟨a, _, hd.reads hS r _ hrest.symm, ?_⟩
    rw [(hf a).reads hT _ rest (Reader.unread_advance hrest.symm), Reader.advance_advance,
      List.length_append]

/-- The same grammar in other words. -/
theorem Parses.congr {T : Bytes → α → Prop} (hd : d.Parses S) (h : ∀ code a, S code a ↔ T code a) :
    d.Parses T := by
  intro r a r'
  simp only [← h, hd r a r']

/-- A decoder that is run a number of times reads that many values. -/
theorem Parses.times (hd : d.Parses S) (count : Nat) :
    Parses (Codec.times d count) fun code items => items.length = count ∧ Series S code items := by
  induction count with
  | zero =>
    refine (parses_pure []).congr fun code items => ?_
    constructor
    · rintro ⟨rfl, rfl⟩
      exact ⟨rfl, .nil⟩
    · rintro ⟨hlength, hseries⟩
      cases hseries with
      | nil => exact ⟨rfl, rfl⟩
      | cons => cases hlength
  | succ count ih =>
    refine (hd.bind fun a => ih.bind fun items => parses_pure (a :: items)).congr
      fun code items => ?_
    constructor
    · rintro ⟨front, -, a, rfl, hS, more, -, others, rfl, ⟨hlength, hseries⟩, rfl, rfl⟩
      rw [List.append_nil]
      exact ⟨congrArg Nat.succ hlength, .cons hS hseries⟩
    · rintro ⟨hlength, hseries⟩
      cases hseries with
      | nil => cases hlength
      | @cons front more a others first hothers =>
        exact ⟨front, more, a, rfl, first, more, [], others, (List.append_nil _).symm,
          ⟨Nat.succ.inj hlength, hothers⟩, rfl, rfl⟩

end Decoder

open Decoder

/-! ## Numbers and texts -/

/-- **The bytes of a text**: a number, and as many bytes as it says, which are the UTF-8 of the
text. -/
def Text.Spells (code : Bytes) (text : String) : Prop :=
  Fits text ∧ ∃ lead, Varint.Spells lead (Utf8.encode text).length ∧
    code = lead ++ Utf8.encode text

theorem takeBlock_eq_ok_iff {bytes block : Bytes} {n : Nat} :
    takeBlock bytes = .ok (block, n) ↔
      ∃ lead, lead ++ block <+: bytes ∧ Varint.Spells lead block.length ∧
        block.length < 2 ^ 64 ∧ n = (lead ++ block).length := by
  constructor
  · intro h
    cases hdecode : Varint.decode bytes with
    | error e =>
      rw [takeBlock_error hdecode] at h
      cases h
    | ok number =>
      obtain ⟨size, length⟩ := number
      obtain ⟨lead, ⟨rest, rfl⟩, hspells, hfits, rfl⟩ := Varint.decode_eq_ok_iff.1 hdecode
      rw [takeBlock_eq hdecode, List.drop_left] at h
      split at h
      · rename_i hsize
        cases h
        have hlength : (rest.take size).length = size := List.length_take_of_le hsize
        refine ⟨lead, (List.prefix_append_right_inj lead).2 (List.take_prefix _ _), ?_, ?_, ?_⟩
        · rwa [hlength]
        · rwa [hlength]
        · rw [List.length_append, hlength]
      · cases h
  · rintro ⟨lead, ⟨rest, rfl⟩, hspells, hfits, rfl⟩
    have hdecode : Varint.decode (lead ++ block ++ rest) = .ok (block.length, lead.length) := by
      rw [List.append_assoc, hspells.decode_eq, if_pos hfits]
    rw [takeBlock_eq hdecode, List.append_assoc, List.drop_left, List.take_left,
      if_pos (by simp), List.length_append]

theorem parses_text : readText.Parses Text.Spells := by
  refine parses_ofUnread fun bytes text n => ?_
  constructor
  · intro h
    cases hblock : takeBlock bytes with
    | error e =>
      rw [takeText_error hblock] at h
      cases h
    | ok taken =>
      obtain ⟨block, length⟩ := taken
      obtain ⟨lead, hlead, hspells, hfits, rfl⟩ := takeBlock_eq_ok_iff.1 hblock
      rw [takeText_eq hblock] at h
      cases hdecode : Utf8.decode block with
      | error fault =>
        rw [hdecode] at h
        cases h
      | ok text' =>
        rw [hdecode] at h
        cases h
        rw [← encode_of_decodeUtf8 hdecode] at hlead hspells hfits ⊢
        exact ⟨_, hlead, ⟨hfits, lead, hspells, rfl⟩, rfl⟩
  · rintro ⟨code, hcode, ⟨hfits, lead, hspells, rfl⟩, rfl⟩
    rw [takeText_eq (takeBlock_eq_ok_iff.2 ⟨lead, hcode, hspells, hfits, rfl⟩),
      decode_encodeUtf8]
    rfl

theorem parses_u64 : readU64.Parses fun code v => Varint.Spells code v.toNat :=
  fun _ _ _ => readU64_eq_ok_iff

/-- A number that is asked for at a width below 64 bits is refused if it needs more. -/
theorem parses_unsigned {width : Nat} (hwidth : width ≤ 64) :
    (readUnsigned width).Parses fun code n => Varint.Spells code n ∧ n < Varint.bound width := by
  have hbound : Varint.bound width ≤ 2 ^ 64 := Nat.pow_le_pow_right (by decide) hwidth
  refine parses_ofUnread fun bytes n length => ?_
  constructor
  · intro h
    cases hdecode : Varint.decode bytes with
    | error e =>
      rw [takeUnsigned_error hdecode] at h
      cases h
    | ok number =>
      obtain ⟨m, k⟩ := number
      rw [takeUnsigned_ok hdecode] at h
      split at h
      · rename_i hfits
        cases h
        obtain ⟨code, hcode, hspells, -, rfl⟩ := Varint.decode_eq_ok_iff.1 hdecode
        exact ⟨code, hcode, ⟨hspells, hfits⟩, rfl⟩
      · cases h
  · rintro ⟨code, hcode, ⟨hspells, hfits⟩, rfl⟩
    have hdecode := Varint.decode_eq_ok_iff.2
      ⟨code, hcode, hspells, Nat.lt_of_lt_of_le hfits hbound, rfl⟩
    rw [takeUnsigned_ok hdecode, if_pos hfits]

theorem parses_u32 : readU32.Parses fun code v => Varint.Spells code v.toNat := by
  refine ((parses_unsigned (show 32 ≤ 64 by decide)).bind fun n => parses_pure n.toUInt32).congr
    fun code v => ?_
  constructor
  · rintro ⟨front, more, n, rfl, ⟨hspells, hfits⟩, rfl, rfl⟩
    have hn : n.toUInt32.toNat = n := UInt32.toNat_ofNat_of_lt' hfits
    rwa [List.append_nil, hn]
  · intro hspells
    exact ⟨code, [], v.toNat, (List.append_nil _).symm, ⟨hspells, v.toNat_lt⟩, rfl,
      UInt32.ofNat_toNat.symm⟩

theorem parses_byte : readByte.Parses fun code b => code = [b] := by
  refine parses_ofUnread fun block b n => ?_
  cases block with
  | nil => simp [takeByte]
  | cons first rest =>
    simp only [takeByte, Except.ok.injEq, Prod.mk.injEq]
    constructor
    · rintro ⟨rfl, rfl⟩
      exact ⟨[first], ⟨rest, rfl⟩, rfl, rfl⟩
    · rintro ⟨-, hprefix, rfl, rfl⟩
      exact ⟨(List.cons_prefix_cons.1 hprefix).1.symm, rfl⟩

/-! ## Lists -/

section
variable {S : Bytes → α → Prop} {item : Decoder α}

/-- Counted items are a number and as many items as it says. -/
theorem Decoder.Parses.counted (hitem : item.Parses S) :
    (readCounted item).Parses fun code items => ∃ count more, code = count ++ more ∧
      Varint.Spells count items.length ∧ items.length < 2 ^ 64 ∧ Series S more items := by
  refine ((parses_unsigned (Nat.le_refl 64)).bind fun n => hitem.within.times n).congr
    fun code items => ?_
  constructor
  · rintro ⟨count, more, _, rfl, ⟨hcount, hfits⟩, rfl, hseries⟩
    exact ⟨count, more, rfl, hcount, hfits, hseries⟩
  · rintro ⟨count, more, rfl, hcount, hfits, hseries⟩
    exact ⟨count, more, _, rfl, ⟨hcount, hfits⟩, rfl, hseries⟩

variable {r r' : Reader} {items : List α}

theorem Reader.unread_eq_nil_iff : r.unread = [] ↔ r.remaining = 0 := by
  rw [r.remaining_eq, List.length_eq_zero_iff]

theorem readToEnd_of_nil (item : Decoder α) (hr : r.unread = []) : readToEnd item r = .ok [] r := by
  rw [readToEnd, hr]
  rfl

theorem readToEnd_of_error {e : Error} (hr : r.unread ≠ []) (hitem : item r = .error e r') :
    readToEnd item r = .error e.within r' := by
  rw [readToEnd, List.isEmpty_eq_false_iff.2 hr, within_eq_error_iff.2 ⟨e, hitem, rfl⟩]
  rfl

/-- Behind an item that has brought the end nearer, the items go on. -/
theorem readToEnd_of_ok {a : α} (hr : r.unread ≠ []) (hitem : item r = .ok a r')
    (hlt : r'.remaining < r.remaining) :
    readToEnd item r = (readToEnd item >>= fun others => Pure.pure (a :: others)) r' := by
  rw [readToEnd, List.isEmpty_eq_false_iff.2 hr, within_eq_ok_iff.2 hitem]
  simp only [Bool.false_eq_true, ite_false, if_pos hlt]
  cases hothers : readToEnd item r' with
  | ok others r₂ =>
    rw [bind_of_ok hothers]
    rfl
  | error e r₂ => rw [bind_of_error hothers]

/-- An item that takes at least one byte is read, and then those behind it. -/
theorem Decoder.Reads.toEnd {code rest : Bytes} {a : α} (hitem : Reads item code a)
    (hne : code ≠ []) (hr : r.unread = code ++ rest) :
    readToEnd item r =
      (readToEnd item >>= fun others => Pure.pure (a :: others)) (r.advance code.length) := by
  have hsome : r.unread ≠ [] := fun hnil => hne (List.append_eq_nil_iff.1 (hr.symm.trans hnil)).1
  have hlt : (r.advance code.length).remaining < r.remaining := by
    have hpos := List.length_pos_iff.2 hne
    have hremaining := r.remaining_eq
    rw [hr, List.length_append] at hremaining
    show r.remaining - code.length < r.remaining
    omega
  exact readToEnd_of_ok hsome (hitem r rest hr) hlt

theorem Series.eq_nil (hne : ∀ code a, S code a → code ≠ []) (h : Series S [] items) :
    items = [] := by
  generalize hcode : ([] : Bytes) = code at h
  cases h with
  | nil => rfl
  | cons first _ => exact absurd (List.append_eq_nil_iff.1 hcode.symm).1 (hne _ _ first)

/-- **Items that run to the end of the data are all of it.**  They are read exactly if the data is
made up of them, and then nothing is left. -/
theorem readToEnd_eq_ok_iff (hitem : item.Parses S) (hne : ∀ code a, S code a → code ≠ []) :
    readToEnd item r = .ok items r' ↔
      Series S r.unread items ∧ r' = r.advance r.unread.length := by
  induction hn : r.unread.length using Nat.strongRecOn generalizing r items with
  | ind n ih =>
    subst hn
    by_cases hempty : r.unread = []
    · rw [readToEnd_of_nil item hempty, hempty, List.length_nil, r.advance_zero]
      constructor
      · rintro ⟨⟩
        exact ⟨.nil, rfl⟩
      · rintro ⟨hseries, rfl⟩
        rw [hseries.eq_nil hne]
    -- the data begins with an item, and what is behind it is shorter
    have hbegin {code rest : Bytes} {a : α} (hS : S code a) (hrest : r.unread = code ++ rest) :
        readToEnd item r = .ok items r' ↔ ∃ others, Series S rest others ∧
          r' = r.advance r.unread.length ∧ items = a :: others := by
      have hbehind := Reader.unread_advance hrest
      have hlt : rest.length < r.unread.length := by
        rw [hrest, List.length_append]
        have := List.length_pos_iff.2 (hne code a hS)
        omega
      have hend : (r.advance code.length).advance rest.length = r.advance r.unread.length := by
        rw [Reader.advance_advance, hrest, List.length_append]
      have hrec (others : List α) : readToEnd item (r.advance code.length) = .ok others r' ↔
          Series S rest others ∧ r' = r.advance r.unread.length := by
        rw [ih rest.length hlt (congrArg List.length hbehind), hbehind, hend]
      rw [(hitem.reads hS).toEnd (hne code a hS) hrest, bind_eq_ok_iff]
      constructor
      · rintro ⟨others, r₁, hread, hpure⟩
        cases hpure
        obtain ⟨hseries, hr'⟩ := (hrec others).1 hread
        exact ⟨others, hseries, hr', rfl⟩
      · rintro ⟨others, hseries, hr', rfl⟩
        exact ⟨others, r', (hrec others).2 ⟨hseries, hr'⟩, rfl⟩
    constructor
    · intro h
      cases hfirst : item r with
      | error e r₁ =>
        rw [readToEnd_of_error hempty hfirst] at h
        cases h
      | ok a r₁ =>
        obtain ⟨code, ⟨rest, hrest⟩, hS, -⟩ := (hitem _ _ _).1 hfirst
        obtain ⟨others, hseries, hr', rfl⟩ := (hbegin hS hrest.symm).1 h
        exact ⟨hrest ▸ .cons hS hseries, hr'⟩
    · rintro ⟨hseries, hr'⟩
      generalize hcode : r.unread = whole at hseries
      cases hseries with
      | nil => exact absurd hcode hempty
      | cons first others => exact (hbegin first hcode).2 ⟨_, others, hr', rfl⟩

end

/-! ## No spelling is shorter than what is written -/

/-- **The shortest form of a number is the shortest spelling.** -/
theorem Varint.Spells.length_le {code : Bytes} {n : Nat} (h : Varint.Spells code n) :
    (Varint.encode n).length ≤ code.length := by
  obtain ⟨k, hk⟩ := Nat.exists_eq_succ_of_ne_zero h.length_pos.ne'
  have hlt := Varint.ofDigits_lt code
  rw [h.value, hk] at hlt
  have hpow : (128 : Nat) ^ (k + 1) = Varint.bound (7 * (k + 1)) := (Nat.pow_mul 2 7 (k + 1)).symm
  rw [hk]
  exact Varint.length_encode_le (hpow ▸ hlt)

theorem Text.Spells.length_le {code : Bytes} {text : String} (h : Text.Spells code text) :
    (encodeText text).length ≤ code.length := by
  obtain ⟨-, lead, hspells, rfl⟩ := h
  rw [encodeText, encodeBlock, List.length_append, List.length_append]
  exact Nat.add_le_add_right hspells.length_le _

theorem Series.length_le {S : Bytes → α → Prop} {encode : α → Bytes}
    (hS : ∀ code a, S code a → (encode a).length ≤ code.length) {code : Bytes} {items : List α}
    (h : Series S code items) : (items.flatMap encode).length ≤ code.length := by
  induction h with
  | nil => exact Nat.le_refl 0
  | @cons front more a items first _ ih =>
    rw [List.flatMap_cons, List.length_append, List.length_append]
    exact Nat.add_le_add (hS front a first) ih

/-- Where every spelling has `k` bytes, there are as many for each value. -/
theorem Series.mul_le_length {S : Bytes → α → Prop} {k : Nat}
    (hS : ∀ code a, S code a → k ≤ code.length) {code : Bytes} {items : List α}
    (h : Series S code items) : k * items.length ≤ code.length := by
  induction h with
  | nil => exact Nat.le_refl 0
  | @cons front more a items first _ ih =>
    rw [List.length_cons, Nat.mul_succ, Nat.add_comm, List.length_append]
    exact Nat.add_le_add (hS front a first) ih

end Folio.Codec
