import Folio.Proofs.Record.Canonical

/-! # Upgrading legacy data

Nothing in legacy data says how many entries there are: they run to the end of the block.  So the
block is read as a record only if it is made up of a header and whole entries, to its last byte
(`Record.decodeLegacy_eq_ok_iff`).  An entry takes at least four bytes, so the reader can neither
stop between two entries nor take none off the block, and an entry that is cut off is refused.

**`Record.upgrade_exact`** says that the content is kept when such data are written in the counted
form.  The number of the entries, which is written then, cannot be too large for a block that was
read: there are fewer entries than bytes.
-/
namespace Folio

open Codec Decoder

namespace Codec

variable {α : Type} {S : Bytes → α → Prop} {code : Bytes} {items : List α}

/-- What is read wherever it stands is in the grammar. -/
theorem Decoder.Parses.spells {d : Decoder α} {a : α} (hd : d.Parses S) (h : Reads d code a) :
    S code a := by
  have hread := h (Reader.ofBytes code) [] (List.append_nil code).symm
  obtain ⟨code', hprefix, hS, hadvance⟩ := (hd _ _ _).1 hread
  have hlength : code'.length = code.length := by
    have hposition := congrArg Reader.position hadvance.symm
    simpa only [Reader.advance, Nat.add_right_inj] using hposition
  have hcode : code' = code := hprefix.eq_of_length hlength
  exact hcode ▸ hS

theorem Series.flatMap {encode : α → Bytes} (h : ∀ a ∈ items, S (encode a) a) :
    Series S (items.flatMap encode) items := by
  induction items with
  | nil => exact .nil
  | cons a items ih =>
    obtain ⟨hfirst, hothers⟩ := List.forall_mem_cons.1 h
    exact .cons hfirst (ih hothers)

theorem Series.forall_mem {P : α → Prop} (h : Series S code items)
    (hP : ∀ code a, S code a → P a) : ∀ a ∈ items, P a := by
  induction h with
  | nil => exact List.forall_mem_nil P
  | cons first _ ih => exact List.forall_mem_cons.2 ⟨hP _ _ first, ih⟩

end Codec

variable {code block : Bytes}

theorem Entry.Spells.ne_nil {entry : Entry} (h : entry.Spells code) : code ≠ [] := by
  have hfour := h.four_le_length
  exact List.length_pos_iff.1 (by omega)

theorem Entry.readToEnd_eq_ok_iff {reader reader' : Reader} {entries : List Entry} :
    readToEnd Entry.decode reader = .ok entries reader' ↔
      Series Entry.Spells reader.unread entries ∧
        reader' = reader.advance reader.unread.length :=
  Codec.readToEnd_eq_ok_iff Entry.parses fun _ _ h => h.ne_nil

theorem Header.LaidOut.fits {numbers : List Bytes} {header : Header}
    (h : header.LaidOut code numbers) :
    Codec.Fits header.name ∧ header.children.length < Varint.bound 64 ∧
      ∀ child ∈ header.children, Codec.Fits child := by
  obtain ⟨-, ⟨-, hname⟩, ⟨-, hcount, hrow⟩, -⟩ := h
  have hchildren := Layout.series_grammar_iff.2 ⟨_, hrow⟩
  exact ⟨hname, hcount,
    hchildren.forall_mem fun _ _ hchild => (Text.LaidOut.grammar_iff.1 hchild).1⟩

namespace Record

variable {r : Record}

/-- **The legacy form of a record**: a header, and entries to the end. -/
def LegacySpells (block : Bytes) (r : Record) : Prop :=
  ∃ front more, block = front ++ more ∧ Layout.grammar Header.LaidOut front r.toHeader ∧
    Series Entry.Spells more r.entries

/-- **Legacy data are read to their end or not at all.** -/
theorem decodeLegacy_eq_ok_iff {reader reader' : Reader} :
    decodeLegacy reader = .ok r reader' ↔
      r.LegacySpells reader.unread ∧ reader' = reader.advance reader.unread.length := by
  unfold decodeLegacy
  simp only [bind_eq_ok_iff]
  constructor
  · rintro ⟨header, now, hheader, entries, last, hread, hpure⟩
    obtain ⟨front, ⟨more, hmore⟩, hlaid, rfl⟩ := (Header.LaidOut.parses _ _ _).1 hheader
    obtain ⟨hseries, rfl⟩ := Entry.readToEnd_eq_ok_iff.1 hread
    cases hpure
    rw [Reader.unread_advance hmore.symm] at hseries
    refine ⟨⟨front, more, hmore.symm, hlaid, hseries⟩, ?_⟩
    rw [Reader.advance_advance, Reader.unread_advance hmore.symm, ← hmore, List.length_append]
  · rintro ⟨⟨front, more, hmore, hlaid, hseries⟩, rfl⟩
    have hbehind := Reader.unread_advance hmore
    refine ⟨_, _, (Header.LaidOut.parses _ _ _).2 ⟨front, ⟨more, hmore.symm⟩, hlaid, rfl⟩, _, _,
      Entry.readToEnd_eq_ok_iff.2 ⟨hbehind ▸ hseries, rfl⟩, ?_⟩
    rw [Reader.advance_advance, hbehind, hmore, List.length_append]
    rfl

theorem upgrade_eq_ok_iff {u : Bytes} :
    upgrade block = .ok u ↔ ∃ r : Record, r.LegacySpells block ∧ u = r.encode := by
  unfold upgrade
  constructor
  · intro h
    split at h
    · rename_i r reader hread
      cases h
      exact ⟨r, (decodeLegacy_eq_ok_iff.1 hread).1, rfl⟩
    · cases h
  · rintro ⟨r, hspells, rfl⟩
    rw [decodeLegacy_eq_ok_iff.2 ⟨hspells, rfl⟩]

theorem legacySpells_encodeLegacy (h : r.Fits) : r.LegacySpells r.encodeLegacy := by
  have hheader := Header.LaidOut.parses.spells (Header.reads_encode h.name h.childCount h.children)
  have hentries : Series Entry.Spells (r.entries.flatMap Entry.encode) r.entries :=
    .flatMap fun entry hentry => Entry.parses.spells (Entry.reads_encode (h.entries entry hentry))
  exact ⟨_, _, rfl, hheader, hentries⟩

/-- There are fewer entries than bytes. -/
theorem LegacySpells.fits (h : r.LegacySpells block) (hblock : block.length < Varint.bound 64) :
    r.Fits := by
  obtain ⟨front, more, rfl, ⟨numbers, hheader⟩, hentries⟩ := h
  obtain ⟨hname, hcount, hchildren⟩ := hheader.fits
  have hfour := Entry.four_mul_le_length hentries
  rw [List.length_append] at hblock
  refine ⟨hname, hcount, hchildren, by omega, hentries.forall_mem ?_⟩
  rintro code entry ⟨id, name, time, -, -, hentry, -⟩
  exact hentry.1

/-- **Upgrading keeps the content.**  Every record is upgraded from its legacy form to its counted
form.  A block is upgraded exactly if it is read as a legacy record; then it is the legacy form of
that record to its last byte, and what it is upgraded to is read as the same record. -/
theorem upgrade_exact :
    (∀ r : Record, r.Fits → upgrade r.encodeLegacy = .ok r.encode) ∧
    ∀ block : Bytes,
      ((∃ u, upgrade block = .ok u) ↔
        ∃ r reader, decodeLegacy (Reader.ofBytes block) = .ok r reader) ∧
      ∀ r reader, decodeLegacy (Reader.ofBytes block) = .ok r reader →
        r.LegacySpells block ∧ reader.unread = [] ∧ reader.position = block.length ∧
          upgrade block = .ok r.encode ∧
          (block.length < Varint.bound 64 → ofBytes r.encode = .ok r) := by
  refine ⟨fun r hr => upgrade_eq_ok_iff.2 ⟨r, legacySpells_encodeLegacy hr, rfl⟩,
    fun block => ⟨?_, fun r reader hread => ?_⟩⟩
  · constructor
    · rintro ⟨u, hu⟩
      obtain ⟨r, hspells, -⟩ := upgrade_eq_ok_iff.1 hu
      exact ⟨r, _, decodeLegacy_eq_ok_iff.2 ⟨hspells, rfl⟩⟩
    · rintro ⟨r, reader, hread⟩
      exact ⟨_, upgrade_eq_ok_iff.2 ⟨r, (decodeLegacy_eq_ok_iff.1 hread).1, rfl⟩⟩
  · obtain ⟨hspells, rfl⟩ := decodeLegacy_eq_ok_iff.1 hread
    refine ⟨hspells, List.drop_length, Nat.zero_add _, upgrade_eq_ok_iff.2 ⟨r, hspells, rfl⟩, ?_⟩
    exact fun hblock => ofBytes_encode (hspells.fits hblock)

/-- A legacy record with one entry is read to its end and upgraded. -/
theorem upgrade_exact_one :
    let old : Entry := { id := 80, name := "old.xml", type := 0, lastModified := 0 }
    let r : Record := { id := 8, name := "/db/legacy", entries := [old] }
    r.Fits ∧ r.encodeLegacy.length < Varint.bound 64 ∧ upgrade r.encodeLegacy = .ok r.encode ∧
      ∃ reader, decodeLegacy (Reader.ofBytes r.encodeLegacy) = .ok r reader ∧
        reader.unread = [] ∧ ofBytes r.encode = .ok r := by
  intro old r
  have hfits : r.Fits := by decide
  have hlength : r.encodeLegacy.length < Varint.bound 64 := by decide +kernel
  have hupgrade := upgrade_exact.1 r hfits
  have hread : decodeLegacy (Reader.ofBytes r.encodeLegacy) = .ok r _ :=
    decodeLegacy_eq_ok_iff.2 ⟨legacySpells_encodeLegacy hfits, rfl⟩
  obtain ⟨-, hend, -, -, hagain⟩ := (upgrade_exact.2 r.encodeLegacy).2 r _ hread
  exact ⟨hfits, hlength, hupgrade, _, hread, hend, hagain hlength⟩

end Record
end Folio
