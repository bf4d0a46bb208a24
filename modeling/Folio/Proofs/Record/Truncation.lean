import Folio.Proofs.Codec.Truncation
import Folio.Proofs.Record.Copying
import Folio.Proofs.Record.RoundTrip

/-! # Records that are cut off

A record that is cut off anywhere is found to be truncated, by a decoder and by a copy alike,
whether the cut is in a number, between a length and its text, behind a count or between two
values: **`Record.truncation_found`**.  The end of the data is reported where no byte is left and
nowhere else, and never for the entries of a record, which stand inside it.
-/
namespace Folio

open Codec Decoder

theorem Entry.runsOut {entry : Entry} (h : Codec.Fits entry.name) :
    RunsOut Entry.decode entry.encode := by
  have hcode : entry.encode = Varint.encode entry.id.toNat ++ (encodeText entry.name ++
      ([entry.type] ++ Varint.encode entry.lastModified.toNat)) := by
    simp only [Entry.encode, List.append_assoc]
  rw [hcode]
  unfold Entry.decode
  refine (runsOut_u64 entry.id).bind (reads_u64 entry.id) ?_
  refine (runsOut_text h).bind (reads_text h) ?_
  refine (runsOut_byte entry.type).bind (reads_byte entry.type) ?_
  exact (runsOut_u64 entry.lastModified).map _

theorem Header.runsOut_afterId {header : Header} (hname : Codec.Fits header.name)
    (hcount : header.children.length < Varint.bound 64)
    (hchildren : ∀ child ∈ header.children, Codec.Fits child) :
    RunsOut (Header.decodeAfterId header.id)
      (encodeText header.name ++ (Varint.encode header.children.length ++
        header.children.flatMap encodeText ++ Varint.encode header.permissions.toNat)) := by
  have htexts (child : String) (hchild : child ∈ header.children) :=
    reads_text (hchildren child hchild)
  have hshort (child : String) (hchild : child ∈ header.children) :=
    runsOut_text (hchildren child hchild)
  unfold Header.decodeAfterId
  refine (runsOut_text hname).bind (reads_text hname) ?_
  refine (runsOut_counted hcount htexts hshort).bind (reads_counted hcount htexts) ?_
  exact (runsOut_u32 header.permissions).map _

theorem Header.runsOut {header : Header} (hname : Codec.Fits header.name)
    (hcount : header.children.length < Varint.bound 64)
    (hchildren : ∀ child ∈ header.children, Codec.Fits child) :
    RunsOut Header.decode header.encode := by
  have hcode : header.encode = Varint.encode header.id.toNat ++ (encodeText header.name ++
      (Varint.encode header.children.length ++ header.children.flatMap encodeText ++
        Varint.encode header.permissions.toNat)) := by
    simp only [Header.encode, List.append_assoc]
  rw [hcode]
  unfold Header.decode
  refine (runsOut_u64 header.id).bind (reads_u64 header.id) ?_
  exact (runsOut_afterId hname hcount hchildren).within

/-- The end of the data before a header is that before its identity. -/
theorem Header.ends_decode_iff (r : Reader) :
    (∃ r', Header.decode r = .error .endOfData r') ↔ r.unread = [] := by
  unfold Header.decode
  rw [ends_bind_iff (fun _ => neverEnds_within _), ends_readU64_iff]

namespace Record

/-- **A record that is cut off runs out.** -/
theorem runsOut {record : Record} (h : record.Fits) : RunsOut decode record.encode := by
  have hreads (entry : Entry) (hentry : entry ∈ record.entries) :=
    Entry.reads_encode (h.entries entry hentry)
  have hshort (entry : Entry) (hentry : entry ∈ record.entries) :=
    Entry.runsOut (h.entries entry hentry)
  unfold decode Record.encode
  rw [List.append_assoc]
  refine (Header.runsOut h.name h.childCount h.children).bind
    (Header.reads_encode h.name h.childCount h.children) ?_
  exact (runsOut_counted h.entryCount hreads hshort).within.map _

/-! ## Where the data ends -/

theorem ends_decode_iff (r : Reader) :
    (∃ r', decode r = .error .endOfData r') ↔ r.unread = [] := by
  unfold decode
  rw [ends_bind_iff (fun _ => (neverEnds_within _).bind fun _ => neverEnds_pure _),
    Header.ends_decode_iff]

theorem ends_decodeLegacy_iff (r : Reader) :
    (∃ r', decodeLegacy r = .error .endOfData r') ↔ r.unread = [] := by
  unfold decodeLegacy
  rw [ends_bind_iff (fun _ => (neverEnds_readToEnd _).bind fun _ => neverEnds_pure _),
    Header.ends_decode_iff]

theorem ends_copy_iff (r : Reader) (output : Array UInt8) :
    (∃ t, copy { input := r, output } = .error .endOfData t) ↔ r.unread = [] := by
  unfold copy
  rw [ends_atomically_iff, ends_bind_iff (fun _ => neverEnds_within _), ends_copyVarint_iff]

theorem neverEnds_skipEntries : NeverEnds skipEntries := by
  unfold skipEntries
  refine (neverEnds_within _).bind fun list => (neverEnds_drain list _).bind fun list => ?_
  unfold CountedList.finish
  split_ifs
  · exact neverEnds_pure _
  · intro r r' h
    cases h

theorem neverEnds_copyEntries : NeverEnds copyEntries := by
  intro t t' h
  have hlist : NeverEnds copyEntryList := (neverEnds_within _).bind fun count =>
    ((neverEnds_within _).times count).bind fun _ => neverEnds_pure _
  obtain ⟨t₁, hcopy⟩ := (ends_atomically_iff t).1 ⟨t', h⟩
  exact hlist t t₁ hcopy

/-- **Truncation is always found.**  A record that is cut off anywhere behind its first byte is
truncated, and both a decoder and a copy say so, with the same numbers.  Whatever the bytes are, the
end of the data is reported exactly where no byte is left. -/
theorem truncation_found :
    (∀ record : Record, record.Fits → ∀ cut, CutOff cut record.encode → cut ≠ [] →
      ∃ needed available, ofBytes cut = .error (.truncated needed available) ∧
        ∀ output, copy { input := Reader.ofBytes cut, output } =
          .error (.truncated needed available) { input := Reader.ofBytes cut, output }) ∧
    (∀ r : Reader,
      ((∃ r', decode r = .error .endOfData r') ↔ r.unread = []) ∧
      ((∃ r', decodeLegacy r = .error .endOfData r') ↔ r.unread = []) ∧
      ((∃ r', Header.decode r = .error .endOfData r') ↔ r.unread = []) ∧
      (∀ output, (∃ t, copy { input := r, output } = .error .endOfData t) ↔ r.unread = [])) ∧
    NeverEnds skipEntries ∧ NeverEnds copyEntries := by
  refine ⟨fun record hfits cut hcut hne => ?_, fun r => ⟨ends_decode_iff r,
    ends_decodeLegacy_iff r, Header.ends_decode_iff r, ends_copy_iff r⟩,
    neverEnds_skipEntries, neverEnds_copyEntries⟩
  obtain ⟨e, r', hrun, he⟩ := runsOut hfits (Reader.ofBytes cut) hcut
  have hcopy := copied.agrees.short hrun he
  have hbytes : ofBytes cut = .error e := by rw [ofBytes, hrun]
  cases e with
  | truncated needed available => exact ⟨needed, available, hbytes, hcopy⟩
  | endOfData => exact (hne ((ends_decode_iff _).1 ⟨r', hrun⟩)).elim
  | overflow | invalidUtf8 | countMismatch => exact he.elim

/-- A record that is cut off within the name of its entry. -/
theorem truncation_found_in_name :
    let record : Record :=
      { id := 300, name := "/größe", children := ["α", ""], permissions := 493
        entries := [{ id := 128, name := "😀", type := 7, lastModified := 16383 }] }
    let cut : Bytes :=
      [172, 2, 8, 47, 103, 114, 195, 182, 195, 159, 101, 2, 2, 206, 177, 0, 237, 3, 1] ++
        [128, 1, 4, 240, 159]
    record.encode = cut ++ [152, 128, 7, 255, 127] ∧
      ∃ needed available, ofBytes cut = .error (.truncated needed available) ∧
        ∀ output, copy { input := Reader.ofBytes cut, output } =
          .error (.truncated needed available) { input := Reader.ofBytes cut, output } := by
  intro record cut
  have hcode : record.encode = cut ++ [152, 128, 7, 255, 127] := by decide +kernel
  have hcut : CutOff cut record.encode := by
    rw [hcode]
    decide
  exact ⟨hcode, truncation_found.1 record (by decide) cut hcut (by decide)⟩

end Record
end Folio
