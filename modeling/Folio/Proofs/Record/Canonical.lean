import Folio.Proofs.Codec.Canonical
import Folio.Proofs.Record.Legacy

/-! # Records are written in one way

What is read as a record may be spelled in many ways and may have anything behind it.
**`encode_canonical`** says which of all these blocks is the one that the record is written to: the
one with nothing behind the record and every number in it in its shortest form, be it an identity,
a length, a count, the permissions or a time.  Any other block is longer than what is written.
-/
namespace Folio

open Codec Decoder

/-- An entry has a number, a text, a byte and a number. -/
inductive Entry.LaidOut : Bytes → List Bytes → Entry → Prop
  | intro {id name time : Bytes} {lengths : List Bytes} {entry : Entry}
      (identity : Varint.Spells id entry.id.toNat) (text : Text.LaidOut name lengths entry.name)
      (modified : Varint.Spells time entry.lastModified.toNat) :
      LaidOut (id ++ (name ++ ([entry.type] ++ time))) ([id] ++ (lengths ++ [time])) entry

/-- A header has a number, a text, counted texts and a number. -/
inductive Header.LaidOut : Bytes → List Bytes → Header → Prop
  | intro {id name children mode : Bytes} {lengths counts : List Bytes} {header : Header}
      (identity : Varint.Spells id header.id.toNat) (text : Text.LaidOut name lengths header.name)
      (counted : Layout.Counted Text.LaidOut children counts header.children)
      (permissions : Varint.Spells mode header.permissions.toNat) :
      LaidOut (id ++ (name ++ (children ++ mode))) ([id] ++ (lengths ++ (counts ++ [mode]))) header

/-- **The bytes of a record**, and the numbers among them: a header and counted entries. -/
inductive Record.LaidOut : Bytes → List Bytes → Record → Prop
  | intro {front more : Bytes} {numbers others : List Bytes} {record : Record}
      (header : Header.LaidOut front numbers record.toHeader)
      (entries : Layout.Counted Entry.LaidOut more others record.entries) :
      LaidOut (front ++ more) (numbers ++ others) record

variable {code block : Bytes} {numbers : List Bytes}

namespace Entry.LaidOut

variable {entry : Entry}

theorem grammar_iff : Layout.grammar LaidOut code entry ↔ Spells code entry := by
  constructor
  · rintro ⟨-, hid, hname, htime⟩
    exact ⟨_, _, _, rfl, hid, Text.LaidOut.grammar_iff.1 ⟨_, hname⟩, htime⟩
  · rintro ⟨id, name, time, rfl, hid, hname, htime⟩
    obtain ⟨lengths, htext⟩ := Text.LaidOut.grammar_iff.2 hname
    exact ⟨_, .intro hid htext htime⟩

theorem parses : Entry.decode.Parses (Layout.grammar LaidOut) :=
  Entry.parses.congr fun _ _ => grammar_iff.symm

theorem shortens (h : LaidOut code numbers entry) : Shortens numbers code entry.encode := by
  obtain ⟨identity, text, modified⟩ := h
  have htail :=
    (Shortens.verbatim [entry.type]).append (.number modified entry.lastModified.toNat_lt)
  have hwhole := (Shortens.number identity entry.id.toNat_lt).append (text.shortens.append htail)
  simpa only [Entry.encode, List.append_assoc, List.nil_append] using hwhole

end Entry.LaidOut

namespace Header.LaidOut

variable {header : Header}

theorem parses : Header.decode.Parses (Layout.grammar LaidOut) := by
  unfold Header.decode Header.decodeAfterId
  refine (parses_u64.bind fun id => (Text.LaidOut.parses.bind fun name =>
    Text.LaidOut.parses.laidOut.bind fun children => parses_u32.bind fun permissions =>
      parses_pure _).within).congr fun code header => ?_
  constructor
  · rintro ⟨id, -, i, rfl, hid, name, -, n, rfl, ⟨lengths, hname⟩, children, -, cs, rfl,
      ⟨counts, hchildren⟩, mode, -, p, rfl, hmode, rfl, rfl⟩
    rw [List.append_nil]
    exact ⟨_, .intro hid hname hchildren hmode⟩
  · rintro ⟨-, hid, hname, hchildren, hmode⟩
    exact ⟨_, _, _, rfl, hid, _, _, _, rfl, ⟨_, hname⟩, _, _, _, rfl, ⟨_, hchildren⟩, _, [], _,
      (List.append_nil _).symm, hmode, rfl, rfl⟩

theorem shortens (h : LaidOut code numbers header) : Shortens numbers code header.encode := by
  obtain ⟨identity, text, counted, permissions⟩ := h
  have hchildren := counted.shortens fun _ _ _ h => h.shortens
  have hmode := Nat.lt_trans header.permissions.toNat_lt (by decide : 2 ^ 32 < 2 ^ 64)
  have htail := hchildren.append (.number permissions hmode)
  have hwhole := (Shortens.number identity header.id.toNat_lt).append (text.shortens.append htail)
  simpa only [Header.encode, List.append_assoc] using hwhole

end Header.LaidOut

namespace Record

variable {r : Record}

theorem LaidOut.parses : decode.Parses (Layout.grammar LaidOut) := by
  unfold decode
  refine (Header.LaidOut.parses.bind fun header => Entry.LaidOut.parses.laidOut.within.bind
    fun entries => parses_pure _).congr fun code r => ?_
  constructor
  · rintro ⟨front, -, header, rfl, ⟨numbers, hheader⟩, more, -, entries, rfl, ⟨others, hentries⟩,
      rfl, rfl⟩
    rw [List.append_nil]
    exact ⟨_, .intro hheader hentries⟩
  · rintro ⟨-, hheader, hentries⟩
    exact ⟨_, _, _, rfl, ⟨_, hheader⟩, _, [], _, (List.append_nil _).symm, ⟨_, hentries⟩, rfl, rfl⟩

theorem LaidOut.shortens (h : r.LaidOut code numbers) : Shortens numbers code r.encode := by
  obtain ⟨header, entries⟩ := h
  have hwhole := header.shortens.append (entries.shortens fun _ _ _ h => h.shortens)
  simpa only [encode, List.append_assoc] using hwhole

/-- What is read as a record begins with one. -/
theorem exists_laidOut_of_ofBytes (h : ofBytes block = .ok r) :
    ∃ code numbers rest, block = code ++ rest ∧ r.LaidOut code numbers := by
  obtain ⟨reader, hdecode⟩ := ofBytes_eq_ok_iff.1 h
  obtain ⟨code, ⟨rest, hrest⟩, ⟨numbers, hr⟩, -⟩ := (LaidOut.parses _ _ _).1 hdecode
  exact ⟨code, numbers, rest, hrest.symm, hr⟩

/-- **A record is written in one way.**  A block that is read as a record is the bytes of a record
and whatever follows.  It is what the record is written to if and only if nothing follows and every
number in it is in its shortest form.  What is written is never longer than the block, and is read
as the same record. -/
theorem encode_canonical (h : ofBytes block = .ok r) :
    (∃ code numbers rest, block = code ++ rest ∧ r.LaidOut code numbers) ∧
    (∀ code numbers rest, block = code ++ rest → r.LaidOut code numbers →
      (r.encode = block ↔ (∀ number ∈ numbers, Varint.Shortest number) ∧ rest = [])) ∧
    r.encode.length ≤ block.length ∧ ofBytes r.encode = .ok r := by
  obtain ⟨code, numbers, rest, hblock, hr⟩ := exists_laidOut_of_ofBytes h
  refine ⟨⟨code, numbers, rest, hblock, hr⟩, ?_, ?_, ofBytes_encode (fits_of_ofBytes h)⟩
  · rintro code numbers rest rfl hr
    have hshortens := hr.shortens
    constructor
    · intro hwritten
      have hle := hshortens.length_le
      rw [hwritten, List.length_append] at hle
      have hrest : rest = [] := List.length_eq_zero_iff.1 (by omega)
      rw [hrest, List.append_nil] at hwritten
      exact ⟨hshortens.eq_iff.1 hwritten, hrest⟩
    · rintro ⟨hshortest, rfl⟩
      rw [List.append_nil]
      exact hshortens.eq_iff.2 hshortest
  · have hle := hr.shortens.length_le
    rw [hblock, List.length_append]
    omega

/-- Permissions that are padded are read as they are and written in one byte, so that the record is
not written to the block that it was read from. -/
theorem encode_canonical_padded :
    let block : Bytes := [1, 1, 97, 0, 128, 0, 0]
    let r : Record := { id := 1, name := "a", permissions := 0 }
    ofBytes block = .ok r ∧ r.encode = [1, 1, 97, 0, 0, 0] ∧ ofBytes r.encode = .ok r ∧
      ∃ code numbers rest, block = code ++ rest ∧ r.LaidOut code numbers ∧
        ¬((∀ number ∈ numbers, Varint.Shortest number) ∧ rest = []) := by
  intro block r
  have hread : ofBytes block = .ok r := by decide +kernel
  have hwritten : r.encode = [1, 1, 97, 0, 0, 0] := by decide +kernel
  obtain ⟨⟨code, numbers, rest, hblock, hr⟩, hiff, -, hagain⟩ := encode_canonical hread
  refine ⟨hread, hwritten, hagain, code, numbers, rest, hblock, hr, fun hshortest => ?_⟩
  have hsame := (hiff code numbers rest hblock hr).2 hshortest
  exact absurd (hwritten.symm.trans hsame) (by decide)

end Record
end Folio
