import Folio.Proofs.Codec.Grammar

/-! # The spelling that is written

Of all the spellings of a number one is written, and it is told by its last byte: that is not zero,
unless it is the only one (`Varint.Spells.encode_eq_iff`).  In data that are made up of several
values any number may be padded, those that say how many or how long something is like the others.
A layout says which bytes hold a value and how each of the numbers among them is spelled, so that
`Shortens` can say what becomes of them when the value is written again: as many bytes or fewer, and
the same ones if and only if no number was padded.  It is kept by whatever puts one piece of data
behind another: no piece gets longer, so the whole stays as long as it was only if each piece does.
-/
namespace Folio.Codec

variable {α : Type}

namespace Varint

/-! ## Numbers -/

/-- **A number in its shortest form**: its last byte is not zero unless it is the only one, and a
tenth byte is 1. -/
structure Shortest (code : Bytes) : Prop where
  last : code.length = 1 ∨ code.getLast? ≠ some 0
  tenth : ∀ b, code[9]? = some b → b = 1

theorem value_pos (groups : Bytes) {last : UInt8} (hlast : last < 128) (hzero : last ≠ 0) :
    0 < value (groups ++ [last]) := by
  induction groups with
  | nil =>
    have hlt : last.toNat < 128 := hlast
    have hne : last.toNat ≠ 0 := fun h => hzero (UInt8.toNat_inj.1 h)
    show 0 < last.toNat % 128 + 128 * 0
    omega
  | cons b groups ih =>
    rw [List.cons_append, value]
    omega

/-- Bytes that do not end in a zero are written again as they are. -/
theorem encode_value {groups : Bytes} {last : UInt8} (hgroups : ∀ b ∈ groups, 128 ≤ b)
    (hlast : last < 128) (hzero : groups = [] ∨ last ≠ 0) :
    encode (value (groups ++ [last])) = groups ++ [last] := by
  induction groups with
  | nil =>
    have hlt : last.toNat < 128 := hlast
    have hvalue : value [last] = last.toNat := by
      rw [value, value]
      omega
    rw [List.nil_append, hvalue, encode, if_pos hlt, Nat.toUInt8_eq,
      UInt8.ofNat_toNat]
  | cons b groups ih =>
    obtain ⟨hb, hmore⟩ := List.forall_mem_cons.1 hgroups
    have hne := hzero.resolve_left (List.cons_ne_nil b groups)
    have hpos := value_pos groups hlast hne
    have hbyte : 128 ≤ b.toNat := hb
    have hsize := b.toNat_lt
    -- the high bit of the first byte is the one that is set because there are more
    have hfirst : (b.toNat % 128 + 128 * value (groups ++ [last])) % 128 + 128 = b.toNat := by omega
    have hothers :
        (b.toNat % 128 + 128 * value (groups ++ [last])) / 128 = value (groups ++ [last]) := by
      omega
    rw [List.cons_append, value, encode, if_neg (by omega), hfirst, hothers,
      ih hmore (Or.inr hne), Nat.toUInt8_eq, UInt8.ofNat_toNat]

theorem getLast?_encode {n : Nat} (h : n ≠ 0) : (encode n).getLast? ≠ some 0 := by
  induction n using Nat.strongRecOn with
  | ind n ih =>
    rw [encode]
    split
    · intro hzero
      rw [List.getLast?_singleton, Option.some.injEq, ← UInt8.toNat_inj,
        toNat_toUInt8 (by omega)] at hzero
      exact h hzero
    · have hpos := length_encode_pos (n / 128)
      rw [List.getLast?_cons_of_ne_nil (List.length_pos_iff.1 hpos)]
      exact ih (n / 128) (by omega) (by omega)

/-- **A number is written as it was spelled if and only if that was its shortest form.** -/
theorem Spells.encode_eq_iff {code : Bytes} {n : Nat} (h : Spells code n) (hfits : n < 2 ^ 64) :
    encode n = code ↔ Shortest code := by
  constructor
  · rintro rfl
    have hlast : (encode n).length = 1 ∨ (encode n).getLast? ≠ some 0 := by
      rcases eq_or_ne n 0 with rfl | hn
      · exact Or.inl (by rw [encode, if_pos (by decide), List.length_singleton])
      · exact Or.inr (getLast?_encode hn)
    refine ⟨hlast, fun b hb => ?_⟩
    have hlong : 9 < (encode n).length := (List.getElem?_eq_some_iff.1 hb).1
    have hten : (encode n).length = 10 := Nat.le_antisymm h.short hlong
    have htenth : (encode n).getLast? = some b := by rw [List.getLast?_eq_getElem?, hten, hb]
    rw [hten, htenth] at hlast
    rcases h.fits_iff.1 hfits with hshort | hzero | hone
    · omega
    · rw [htenth] at hzero
      exact absurd hzero (hlast.resolve_left (by decide))
    · rw [htenth, Option.some.injEq] at hone
      exact hone
  · rintro ⟨hlast, -⟩
    obtain ⟨groups, last, rfl, hgroups, hend⟩ := h.ends
    rw [← h.value, ← value_eq_ofDigits]
    refine encode_value hgroups hend ?_
    rw [List.length_append, List.getLast?_concat] at hlast
    rcases hlast with hone | hzero
    · exact Or.inl (List.length_eq_zero_iff.1 (Nat.succ.inj hone))
    · exact Or.inr fun hlast => hzero (congrArg some hlast)

end Varint

/-! ## What becomes of data that are written again -/

/-- **The data take as many bytes as before or fewer, and they are the same bytes if and only if all
of their numbers were in their shortest form.** -/
structure Shortens (numbers : List Bytes) (code written : Bytes) : Prop where
  length_le : written.length ≤ code.length
  eq_iff : written = code ↔ ∀ number ∈ numbers, Varint.Shortest number

namespace Shortens

variable {numbers others : List Bytes} {code more written writtenMore : Bytes}

/-- What holds no number is written as it is. -/
theorem verbatim (code : Bytes) : Shortens [] code code where
  length_le := Nat.le_refl _
  eq_iff := iff_of_true rfl (List.forall_mem_nil _)

theorem number {n : Nat} (h : Varint.Spells code n) (hfits : n < 2 ^ 64) :
    Shortens [code] code (Varint.encode n) where
  length_le := h.length_le
  eq_iff := by rw [h.encode_eq_iff hfits, List.forall_mem_singleton]

/-- Neither of two pieces gets longer, so that they are as long as before only if both are. -/
theorem append (hfirst : Shortens numbers code written)
    (hmore : Shortens others more writtenMore) :
    Shortens (numbers ++ others) (code ++ more) (written ++ writtenMore) where
  length_le := by
    rw [List.length_append, List.length_append]
    exact Nat.add_le_add hfirst.length_le hmore.length_le
  eq_iff := by
    rw [List.forall_mem_append, ← hfirst.eq_iff, ← hmore.eq_iff]
    constructor
    · intro heq
      have hlength := congrArg List.length heq
      have hle := hfirst.length_le
      have hmorele := hmore.length_le
      rw [List.length_append, List.length_append] at hlength
      exact List.append_inj heq (by omega)
    · rintro ⟨rfl, rfl⟩
      rfl

end Shortens

/-! ## Layouts -/

/-- A layout says which bytes hold a value, and which of them are the numbers in it. -/
abbrev Layout (α : Type) := Bytes → List Bytes → α → Prop

/-- The grammar of a layout, which does not tell the numbers from the rest. -/
def Layout.grammar (L : Layout α) (code : Bytes) (a : α) : Prop := ∃ numbers, L code numbers a

/-- Values one after another. -/
inductive Layout.Row (L : Layout α) : Bytes → List Bytes → List α → Prop
  | nil : Row L [] [] []
  | cons {front more : Bytes} {numbers others : List Bytes} {a : α} {items : List α}
      (first : L front numbers a) (rest : Row L more others items) :
      Row L (front ++ more) (numbers ++ others) (a :: items)

/-- The number of the values, and then the values. -/
inductive Layout.Counted (L : Layout α) : Bytes → List Bytes → List α → Prop
  | intro {count more : Bytes} {numbers : List Bytes} {items : List α}
      (spells : Varint.Spells count items.length) (fits : items.length < 2 ^ 64)
      (row : Row L more numbers items) : Counted L (count ++ more) (count :: numbers) items

/-- A text is preceded by the length of its UTF-8. -/
inductive Text.LaidOut : Bytes → List Bytes → String → Prop
  | intro {lead : Bytes} {text : String} (spells : Varint.Spells lead (Utf8.encode text).length)
      (fits : Fits text) : LaidOut (lead ++ Utf8.encode text) [lead] text

namespace Layout

variable {L : Layout α} {encode : α → Bytes} {code : Bytes} {numbers : List Bytes} {items : List α}

theorem series_grammar_iff : Series L.grammar code items ↔ ∃ numbers, Row L code numbers items := by
  constructor
  · intro h
    induction h with
    | nil => exact ⟨[], .nil⟩
    | cons first _ ih =>
      obtain ⟨numbers, hfirst⟩ := first
      obtain ⟨others, hrest⟩ := ih
      exact ⟨numbers ++ others, .cons hfirst hrest⟩
  · rintro ⟨numbers, h⟩
    induction h with
    | nil => exact .nil
    | cons first _ ih => exact .cons ⟨_, first⟩ ih

theorem Row.shortens (h : Row L code numbers items)
    (hL : ∀ code numbers a, L code numbers a → Shortens numbers code (encode a)) :
    Shortens numbers code (items.flatMap encode) := by
  induction h with
  | nil => exact .verbatim []
  | cons first _ ih => exact (hL _ _ _ first).append ih

theorem Counted.shortens (h : Counted L code numbers items)
    (hL : ∀ code numbers a, L code numbers a → Shortens numbers code (encode a)) :
    Shortens numbers code (Varint.encode items.length ++ items.flatMap encode) := by
  obtain ⟨spells, fits, row⟩ := h
  exact (Shortens.number spells fits).append (row.shortens hL)

end Layout

/-- Counted values are laid out behind their number. -/
theorem Decoder.Parses.laidOut {L : Layout α} {item : Decoder α} (hitem : item.Parses L.grammar) :
    (readCounted item).Parses (Layout.grammar (Layout.Counted L)) := by
  refine hitem.counted.congr fun code items => ?_
  constructor
  · rintro ⟨count, more, rfl, hcount, hfits, hseries⟩
    obtain ⟨numbers, hrow⟩ := Layout.series_grammar_iff.1 hseries
    exact ⟨count :: numbers, .intro hcount hfits hrow⟩
  · rintro ⟨-, hcount, hfits, hrow⟩
    exact ⟨_, _, rfl, hcount, hfits, Layout.series_grammar_iff.2 ⟨_, hrow⟩⟩

namespace Text.LaidOut

theorem grammar_iff {code : Bytes} {text : String} :
    Layout.grammar LaidOut code text ↔ Text.Spells code text := by
  constructor
  · rintro ⟨-, hspells, hfits⟩
    exact ⟨hfits, _, hspells, rfl⟩
  · rintro ⟨hfits, lead, hspells, rfl⟩
    exact ⟨[lead], .intro hspells hfits⟩

theorem parses : readText.Parses (Layout.grammar LaidOut) :=
  parses_text.congr fun _ _ => grammar_iff.symm

theorem shortens {code : Bytes} {numbers : List Bytes} {text : String}
    (h : LaidOut code numbers text) : Shortens numbers code (encodeText text) := by
  obtain ⟨spells, fits⟩ := h
  exact (Shortens.number spells fits).append (.verbatim _)

end Text.LaidOut
end Folio.Codec
