import Folio.Proofs.Codec.Reads
import Folio.Record.Decode

/-! # Records read back

**`Record.reads_encode`**: a record that fits into memory is read back from its counted form,
wherever that stands.  Fitting is no restriction in practice: it asks that no text and no
list is longer than a 64-bit length can say, and every record that is read fits.
-/
namespace Folio

open Codec Decoder

/-- Every length in a record can be written. -/
structure Record.Fits (r : Record) : Prop where
  name : Codec.Fits r.name
  childCount : r.children.length < Varint.bound 64
  children : ∀ child ∈ r.children, Codec.Fits child
  entryCount : r.entries.length < Varint.bound 64
  entries : ∀ entry ∈ r.entries, Codec.Fits entry.name

instance (r : Record) : Decidable r.Fits :=
  decidable_of_iff (Codec.Fits r.name ∧ r.children.length < Varint.bound 64 ∧
    (∀ child ∈ r.children, Codec.Fits child) ∧ r.entries.length < Varint.bound 64 ∧
    ∀ entry ∈ r.entries, Codec.Fits entry.name)
    ⟨fun ⟨hn, hc, hcs, he, hes⟩ => ⟨hn, hc, hcs, he, hes⟩,
      fun h => ⟨h.name, h.childCount, h.children, h.entryCount, h.entries⟩⟩

/-- A record with nothing in it fits if its name does. -/
theorem Record.fits_new (id : ObjectId) {name : String} (h : Codec.Fits name) :
    Record.Fits { id, name } :=
  ⟨h, Nat.two_pow_pos 64, fun _ h => by (cases h), Nat.two_pow_pos 64, fun _ h => by cases h⟩

theorem Entry.reads_encode {entry : Entry} (h : Codec.Fits entry.name) :
    Reads Entry.decode entry.encode entry := by
  have hcode : entry.encode = Varint.encode entry.id.toNat ++ (encodeText entry.name ++
      ([entry.type] ++ (Varint.encode entry.lastModified.toNat ++ []))) := by
    simp only [Entry.encode, List.append_assoc, List.append_nil]
  rw [hcode]
  unfold Entry.decode
  refine (reads_u64 entry.id).bind ?_
  refine (reads_text h).bind ?_
  refine (reads_byte entry.type).bind ?_
  exact (reads_u64 entry.lastModified).bind (.pure entry)

theorem Header.reads_afterId {header : Header} (hname : Codec.Fits header.name)
    (hcount : header.children.length < Varint.bound 64)
    (hchildren : ∀ child ∈ header.children, Codec.Fits child) :
    Reads (Header.decodeAfterId header.id)
      (encodeText header.name ++ (Varint.encode header.children.length ++
        header.children.flatMap encodeText ++ Varint.encode header.permissions.toNat)) header := by
  unfold Header.decodeAfterId
  refine (reads_text hname).bind ?_
  refine (reads_counted hcount fun child hchild => reads_text (hchildren child hchild)).bind ?_
  exact (reads_u32 header.permissions).map _

theorem Header.reads_encode {header : Header} (hname : Codec.Fits header.name)
    (hcount : header.children.length < Varint.bound 64)
    (hchildren : ∀ child ∈ header.children, Codec.Fits child) :
    Reads Header.decode header.encode header := by
  have hcode : header.encode = Varint.encode header.id.toNat ++ (encodeText header.name ++
      (Varint.encode header.children.length ++ header.children.flatMap encodeText ++
        Varint.encode header.permissions.toNat)) := by
    simp only [Header.encode, List.append_assoc]
  rw [hcode]
  unfold Header.decode
  refine (reads_u64 header.id).bind ?_
  exact (reads_afterId hname hcount hchildren).within

namespace Record

/-- **A record is read back.** -/
theorem reads_encode {r : Record} (h : r.Fits) : Reads decode r.encode r := by
  unfold decode Record.encode
  rw [List.append_assoc]
  refine (Header.reads_encode h.name h.childCount h.children).bind ?_
  exact (reads_counted h.entryCount fun entry hentry =>
    Entry.reads_encode (h.entries entry hentry)).within.map _

theorem ofBytes_encode {r : Record} (h : r.Fits) : ofBytes r.encode = .ok r := by
  have hread := reads_encode h (Reader.ofBytes r.encode) [] (List.append_nil _).symm
  rw [ofBytes, hread]

end Record

/-! ## What is read fits -/

theorem Entry.ensures_fits : Ensures Entry.decode fun entry => Codec.Fits entry.name := by
  unfold Entry.decode
  refine (ensures_true _).bind fun id _ => ensures_text.bind fun name hname => ?_
  exact (ensures_true _).bind fun type _ => (ensures_true _).bind fun lastModified _ => .pure hname

/-- A header that is read has the identity in front of it, and fits. -/
theorem Header.ensures_afterId (id : ObjectId) :
    Ensures (Header.decodeAfterId id) fun header => header.id = id ∧ Codec.Fits header.name ∧
      header.children.length < Varint.bound 64 ∧
      ∀ child ∈ header.children, Codec.Fits child := by
  unfold Header.decodeAfterId
  refine ensures_text.bind fun name hname => ?_
  refine (ensures_counted ensures_text).bind fun children hchildren => ?_
  exact (ensures_true _).bind fun permissions _ => .pure ⟨rfl, hname, hchildren.1, hchildren.2⟩

namespace Record

/-- **Every record that is read fits.** -/
theorem ensures_fits : Ensures decode Fits := by
  unfold decode Header.decode
  refine Ensures.bind (P := fun header => Codec.Fits header.name ∧
    header.children.length < Varint.bound 64 ∧
      ∀ child ∈ header.children, Codec.Fits child) ?_ fun header hheader => ?_
  · refine (ensures_true _).bind fun id _ => ?_
    intro r header r' hrun
    exact ((Header.ensures_afterId id).within r header r' hrun).2
  · refine (ensures_counted Entry.ensures_fits).within.bind fun entries hentries => .pure ?_
    exact ⟨hheader.1, hheader.2.1, hheader.2.2, hentries.1, hentries.2⟩

theorem fits_of_ofBytes {block : Bytes} {r : Record} (h : ofBytes block = .ok r) : r.Fits := by
  unfold ofBytes at h
  split at h
  · rename_i r' reader hrun
    cases h
    exact ensures_fits _ _ _ hrun
  · cases h

/-- Whatever is read off the bytes of a record has its identity, even where a length does not
fit: the identity stands in front. -/
theorem id_of_ofBytes_encode {r r' : Record} (h : ofBytes r.encode = .ok r') : r'.id = r.id := by
  -- the identity is read first and handed on to what follows
  have hafter : Ensures (within (Header.decodeAfterId r.id) >>= fun header =>
      within (readCounted Entry.decode) >>= fun entries =>
        pure ({ header with entries := entries } : Record)) fun r' => r'.id = r.id :=
    (Header.ensures_afterId r.id).within.bind fun header hheader =>
      (ensures_true _).bind fun entries _ => .pure hheader.1
  have hfront : Varint.encode r.id.toNat <+: r.encode := by
    simp only [Record.encode, Header.encode, List.append_assoc]
    exact List.prefix_append _ _
  obtain ⟨rest, hrest⟩ := hfront
  have hunread : (Reader.ofBytes r.encode).unread = Varint.encode r.id.toNat ++ rest := hrest.symm
  unfold ofBytes decode Header.decode at h
  rw [bind_assoc, (reads_u64 r.id).bind_eq _ hunread] at h
  split at h
  · rename_i r'' reader hrun
    cases h
    exact hafter _ _ _ hrun
  · cases h

end Record
end Folio
