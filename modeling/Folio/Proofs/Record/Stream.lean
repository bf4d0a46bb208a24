import Folio.Proofs.Record.RoundTrip

/-! # Records in a stream

A record says itself where it ends, so records that are written one after another are read
back one after another: **`Record.read_stream`**.  Nothing between two records tells them
apart, and what stands behind the last one is left alone.
-/
namespace Folio

open Codec Decoder

namespace Codec

/-- An unsigned number cannot begin where the data ends. -/
theorem readUnsigned_nil {width : Nat} {r : Reader} (hr : r.unread = []) :
    readUnsigned width r = .error .endOfData r := by
  unfold readUnsigned Decoder.ofUnread
  rw [hr]
  rfl

end Codec

namespace Record

/-- No record begins where the data ends. -/
theorem decode_nil {r : Reader} (hr : r.unread = []) : decode r = .error .endOfData r := by
  have hid : readU64 r = .error .endOfData r := bind_of_error (readUnsigned_nil hr)
  have hheader : Header.decode r = .error .endOfData r := bind_of_error hid
  exact bind_of_error hheader

/-- **Records are read back from a stream**, in their order and whatever follows them.  The reader
stops where the rest begins, and if nothing is left the next record is the end of the data. -/
theorem read_stream {records : List Record} (hfits : ∀ record ∈ records, record.Fits)
    {rest : Bytes} {r : Reader} (hr : r.unread = records.flatMap encode ++ rest) :
    ∃ r', times decode records.length r = .ok records r' ∧
      r'.position = r.position + (records.flatMap encode).length ∧ r'.unread = rest ∧
      (rest = [] → decode r' = .error .endOfData r') := by
  have hread : Reads (times decode records.length) (records.flatMap encode) records :=
    Reads.times fun record hmem => reads_encode (hfits record hmem)
  have hrest := Reader.unread_advance hr
  refine ⟨_, hread r rest hr, rfl, hrest, fun hnil => decode_nil (hrest.trans hnil)⟩

/-- Two records with numbers at the limits of seven-bit groups, and half a number after them. -/
theorem read_stream_two :
    let first : Record :=
      { id := 18446744073709551615, name := "/db/größe", children := ["α", "日本"]
        permissions := 4294967295
        entries := [{ id := 128, name := "😀", type := 255, lastModified := 16383 }] }
    let second : Record := { id := 127, name := "" }
    ∃ r', times decode 2 (Reader.ofBytes ([first, second].flatMap encode ++ [128])) =
        .ok [first, second] r' ∧ r'.unread = [128] := by
  intro first second
  have hfits : ∀ record ∈ [first, second], record.Fits := by decide
  have hunread : (Reader.ofBytes ([first, second].flatMap encode ++ [128])).unread =
      [first, second].flatMap encode ++ [128] := rfl
  obtain ⟨r', hread, -, hrest, -⟩ := read_stream hfits hunread
  exact ⟨r', hread, hrest⟩

end Record
end Folio
