import Folio.Proofs.Codec.Grammar
import Folio.Proofs.Record.RoundTrip
import Folio.Store

/-! # Legacy data taken for counted data

Nothing in a record says which form it is in.  The header is the same in both, and behind it the
counted form has the number of its entries where the legacy form has the identity of its first one.
So a legacy record is read as one that announces as many entries as that identity says, and they are
looked for in what follows it: the rest of the first entry, and the other ones.

As a rule they are not found.  **`legacy_refused_iff`** says exactly when, and that what is found
otherwise is never what the record holds: spelling that would take the identity as well.
-/
namespace Folio

open Codec Decoder

/-! ## The bytes of an entry -/

/-- **The bytes of an entry**: a number, a text, a byte and a number. -/
def Entry.Spells (code : Bytes) (entry : Entry) : Prop :=
  ∃ id name time, code = id ++ (name ++ ([entry.type] ++ time)) ∧
    Varint.Spells id entry.id.toNat ∧ Text.Spells name entry.name ∧
      Varint.Spells time entry.lastModified.toNat

/-- What follows the identity in an entry. -/
def Entry.encodeAfterId (entry : Entry) : Bytes :=
  encodeText entry.name ++ [entry.type] ++ Varint.encode entry.lastModified.toNat

namespace Entry

variable {entry : Entry} {code : Bytes}

theorem encode_eq (entry : Entry) :
    entry.encode = Varint.encode entry.id.toNat ++ entry.encodeAfterId := by
  simp only [encode, encodeAfterId, List.append_assoc]

theorem parses : Entry.decode.Parses Spells := by
  unfold Entry.decode
  refine (parses_u64.bind fun id => parses_text.bind fun name => parses_byte.bind fun type =>
    parses_u64.bind fun lastModified => parses_pure _).congr fun code entry => ?_
  constructor
  · rintro ⟨id, -, i, rfl, hid, name, -, n, rfl, hname, -, -, t, rfl, rfl, time, -, m, rfl, htime,
      rfl, rfl⟩
    exact ⟨id, name, time, by rw [List.append_nil], hid, hname, htime⟩
  · rintro ⟨id, name, time, rfl, hid, hname, htime⟩
    exact ⟨id, _, _, rfl, hid, name, _, _, rfl, hname, _, _, _, rfl, rfl, time, [], _,
      (List.append_nil _).symm, htime, rfl, rfl⟩

/-- No entry is spelled in fewer bytes than it is written in. -/
theorem Spells.length_le (h : Spells code entry) : entry.encode.length ≤ code.length := by
  obtain ⟨id, name, time, rfl, hid, hname, htime⟩ := h
  have hidle := hid.length_le
  have hnamele := hname.length_le
  have htimele := htime.length_le
  simp only [encode, List.length_append, List.length_singleton]
  omega

theorem length_le_of_series {entries : List Entry} (h : Series Spells code entries) :
    (entries.flatMap encode).length ≤ code.length := h.length_le fun _ _ h => h.length_le

/-- There is a byte of each of its four parts in an entry. -/
theorem Spells.four_le_length (h : Spells code entry) : 4 ≤ code.length := by
  obtain ⟨id, name, time, rfl, hid, ⟨-, lead, hlead, rfl⟩, htime⟩ := h
  have hidpos := hid.length_pos
  have hleadpos := hlead.length_pos
  have htimepos := htime.length_pos
  simp only [List.length_append, List.length_singleton]
  omega

theorem four_mul_le_length {entries : List Entry} (h : Series Spells code entries) :
    4 * entries.length ≤ code.length := h.mul_le_length fun _ _ h => h.four_le_length

end Entry

/-- What is filed as it is is read as a record when it is loaded. -/
theorem Store.load_putRaw (store : Store) (id : ObjectId) (name : String) (block : Bytes)
    (timeout : Option Duration) :
    (store.putRaw id name block).load id timeout =
      (Record.ofBytes block).map fun r => some (Collection.ofRecord r timeout) := by
  rw [load, raw?, putRaw, Table.get?_insert, if_pos rfl]
  dsimp only
  rw [Collection.ofBytes]
  cases Record.ofBytes block <;> rfl

namespace Record

variable {r r' : Record} {first : Entry} {others : List Entry}

theorem ofBytes_eq_ok_iff {block : Bytes} :
    ofBytes block = .ok r' ↔ ∃ reader, decode (Reader.ofBytes block) = .ok r' reader := by
  unfold ofBytes
  cases decode (Reader.ofBytes block) <;> simp

/-- **The identity of the first entry is read as the number of the entries.** -/
theorem decode_encodeLegacy (h : r.Fits) (hentries : r.entries = first :: others) :
    ∃ reader : Reader, reader.unread = first.encodeAfterId ++ others.flatMap Entry.encode ∧
      decode (Reader.ofBytes r.encodeLegacy) =
        (within (readTimes first.id.toNat Entry.decode) >>= fun entries =>
          pure { r with entries }) reader := by
  have hheader := Header.reads_encode h.name h.childCount h.children
  have hcount := (reads_unsigned first.id.toNat_lt (Nat.le_refl 64)).within
  have hunread : (Reader.ofBytes r.encodeLegacy).unread = r.toHeader.encode ++
      (Varint.encode first.id.toNat ++
        (first.encodeAfterId ++ others.flatMap Entry.encode)) := by
    show r.encodeLegacy = _
    rw [encodeLegacy, hentries, List.flatMap_cons, Entry.encode_eq, List.append_assoc]
  have hbehind := Reader.unread_advance hunread
  refine ⟨_, Reader.unread_advance hbehind, ?_⟩
  unfold decode readCounted
  rw [hheader.bind_eq _ hunread, within_bind, bind_assoc, hcount.bind_eq _ hbehind]

/-- **What a legacy record is taken for.** -/
theorem ofBytes_encodeLegacy (h : r.Fits) (hentries : r.entries = first :: others) :
    ofBytes r.encodeLegacy = .ok r' ↔
      ∃ code entries, code <+: first.encodeAfterId ++ others.flatMap Entry.encode ∧
        Series Entry.Spells code entries ∧ entries.length = first.id.toNat ∧
        r' = { r with entries } := by
  obtain ⟨reader, hunread, hdecode⟩ := decode_encodeLegacy h hentries
  have hparses := (Entry.parses.within.times first.id.toNat).within
  rw [ofBytes_eq_ok_iff, hdecode, ← hunread]
  simp only [bind_eq_ok_iff]
  constructor
  · rintro ⟨after, entries, now, hread, hpure⟩
    obtain ⟨code, hcode, ⟨hlength, hseries⟩, -⟩ := (hparses _ _ _).1 hread
    cases hpure
    exact ⟨code, entries, hcode, hseries, hlength, rfl⟩
  · rintro ⟨code, entries, hcode, hseries, hlength, rfl⟩
    exact ⟨_, entries, _, (hparses _ _ _).2 ⟨code, hcode, ⟨hlength, hseries⟩, rfl⟩, rfl⟩

/-- A record needs the bytes of its first entry's identity, and those are taken for a count. -/
theorem entries_ne_of_ofBytes (h : r.Fits) (hentries : r.entries = first :: others)
    (hread : ofBytes r.encodeLegacy = .ok r') : r'.entries ≠ r.entries := by
  obtain ⟨code, entries, hcode, hseries, -, rfl⟩ := (ofBytes_encodeLegacy h hentries).1 hread
  rintro rfl
  have hlength := (Entry.length_le_of_series hseries).trans hcode.length_le
  have hpos := Varint.length_encode_pos first.id.toNat
  rw [hentries, List.flatMap_cons, Entry.encode_eq, List.length_append, List.length_append,
    List.length_append] at hlength
  omega

/-- A legacy record is refused where too few entries follow. -/
theorem encodeLegacy_error_iff (h : r.Fits) (hentries : r.entries = first :: others) :
    (∃ e, ofBytes r.encodeLegacy = .error e) ↔
      ¬∃ code entries, code <+: first.encodeAfterId ++ others.flatMap Entry.encode ∧
        Series Entry.Spells code entries ∧ entries.length = first.id.toNat := by
  constructor
  · rintro ⟨e, he⟩ ⟨code, entries, hcode, hseries, hlength⟩
    have hread := (ofBytes_encodeLegacy h hentries).2 ⟨code, entries, hcode, hseries, hlength, rfl⟩
    cases he.symm.trans hread
  · intro hnone
    cases hread : ofBytes r.encodeLegacy with
    | error e => exact ⟨e, rfl⟩
    | ok r' =>
      obtain ⟨code, entries, hcode, hseries, hlength, -⟩ :=
        (ofBytes_encodeLegacy h hentries).1 hread
      exact absurd ⟨code, entries, hcode, hseries, hlength⟩ hnone

/-- Entries need four bytes each. -/
theorem encodeLegacy_error_of_short (h : r.Fits) (hentries : r.entries = first :: others)
    (hshort : (first.encodeAfterId ++ others.flatMap Entry.encode).length <
      4 * first.id.toNat) : ∃ e, ofBytes r.encodeLegacy = .error e := by
  refine (encodeLegacy_error_iff h hentries).2 ?_
  rintro ⟨code, entries, hcode, hseries, hlength⟩
  have hfour := Entry.four_mul_le_length hseries
  have hprefix := hcode.length_le
  omega

/-- **A legacy record is refused unless what follows the identity of its first entry begins with
as many entries as that identity says.**  There are none such if the bytes are fewer than four for
each.  If there are, they are read as the entries of the record, and they are not its entries; an
identity of 0 asks for none.  A store from which such data are opened fails with the same error, or
opens what is read. -/
theorem legacy_refused_iff (h : r.Fits) (hentries : r.entries = first :: others) :
    let tail := first.encodeAfterId ++ others.flatMap Entry.encode
    ((∃ e, ofBytes r.encodeLegacy = .error e) ↔
      ¬∃ code entries, code <+: tail ∧ Series Entry.Spells code entries ∧
        entries.length = first.id.toNat) ∧
    (tail.length < 4 * first.id.toNat → ∃ e, ofBytes r.encodeLegacy = .error e) ∧
    (∀ r', ofBytes r.encodeLegacy = .ok r' →
      r'.toHeader = r.toHeader ∧ r'.entries.length = first.id.toNat ∧ r'.entries ≠ r.entries ∧
      ∃ code, code <+: tail ∧ Series Entry.Spells code r'.entries) ∧
    (first.id = 0 → ofBytes r.encodeLegacy = .ok { r with entries := [] }) ∧
    ∀ (store : Store) id name timeout,
      (store.putRaw id name r.encodeLegacy).load id timeout =
        (ofBytes r.encodeLegacy).map fun r' => some (Collection.ofRecord r' timeout) := by
  refine ⟨encodeLegacy_error_iff h hentries, encodeLegacy_error_of_short h hentries,
    fun r' hread => ?_, fun hzero => ?_, fun store id name timeout => ?_⟩
  · have hne := entries_ne_of_ofBytes h hentries hread
    obtain ⟨code, entries, hcode, hseries, hlength, rfl⟩ :=
      (ofBytes_encodeLegacy h hentries).1 hread
    exact ⟨rfl, hlength, hne, code, hcode, hseries⟩
  · have hnone : ([] : List Entry).length = first.id.toNat := by
      rw [hzero]
      rfl
    exact (ofBytes_encodeLegacy h hentries).2 ⟨[], [], List.nil_prefix, .nil, hnone, rfl⟩
  · exact store.load_putRaw ..

/-- Entries with identities such as are usual are not taken for others: there are not that many
bytes. -/
theorem legacy_refused_usually :
    let old : Entry := { id := 80, name := "old.xml", type := 0, lastModified := 0 }
    let older : Entry := { id := 81, name := "older.xml", type := 0, lastModified := 0 }
    let r : Record := { id := 8, name := "/db/legacy", entries := [old, older] }
    r.Fits ∧ r.entries = [old, older] ∧ ∃ e, ofBytes r.encodeLegacy = .error e := by
  intro old older r
  have hfits : r.Fits := by decide
  have hentries : r.entries = [old, older] := rfl
  obtain ⟨-, hshort, -⟩ := legacy_refused_iff hfits hentries
  exact ⟨hfits, hentries, hshort (by decide +kernel)⟩

/-- An entry with the identity 0 is lost.  One with the identity 1 and the name U+0000 is taken for
another: its name's length is read as an identity and its name as the length of an empty name. -/
theorem legacy_mistaken :
    let zero : Entry := { id := 0, name := "a.xml", type := 0, lastModified := 5 }
    let one : Entry := { id := 1, name := "\x00", type := 1, lastModified := 5 }
    let r : Record := { id := 3, name := "/db/legacy", entries := [zero] }
    let s : Record := { id := 3, name := "/db/legacy", entries := [one] }
    ofBytes r.encodeLegacy = .ok { r with entries := [] } ∧
      ofBytes s.encodeLegacy = .ok { s with entries := [{ one with name := "" }] } := by
  decide +kernel

end Record
end Folio
