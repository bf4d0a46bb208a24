import Folio.Proofs.Codec.Copying
import Folio.Record.Copy

/-! # Records copied as they stand

A copy of a record measures what a decoder evaluates.  The two walk the format on their own, and
they meet at every boundary: **`Record.copy_agrees`**, for every block of bytes and every
position in it.  Overlong numbers and counts are copied as they are written, and a text that is
no UTF-8 or a number that is too large stays what it was in the copy.
-/
namespace Folio

open Codec Decoder

theorem Entry.copied :
    CopiedBy (within Entry.decode) (within Entry.copy) fun _ _ => True := by
  unfold Entry.decode Entry.copy
  simp only [within_bind, within_pure]
  refine copiedBy_u64.within.bind fun id _ _ => ?_
  refine copiedBy_text.within.bind fun name _ _ => ?_
  refine copiedBy_byte.bind fun type _ _ => ?_
  exact copiedBy_u64.within.map _ fun _ _ _ => trivial

/-- What follows the identity in a header is copied as it is read. -/
theorem Header.copied_afterId (id : ObjectId) :
    CopiedBy (within (decodeAfterId id))
      (within (copyBlocks 1) >>= fun _ => within (copyNumber >>= copyBlocks) >>= fun _ =>
        within (copyVarints 1)) fun _ _ => True := by
  have hdecode : within (decodeAfterId id) = within readText >>= fun name =>
      within (readCounted readText) >>= fun children =>
        within readU32 >>= fun permissions => pure { id, name, children, permissions } := by
    unfold decodeAfterId
    simp only [within_bind, within_pure]
  rw [hdecode]
  refine copiedBy_text.within.bind fun name _ _ => ?_
  refine copiedBy_countedTexts.bind fun children _ _ => ?_
  exact copiedBy_u32.within.map _ fun _ _ _ => trivial

namespace Record

/-- The entries are copied one by one, as they are read. -/
theorem copied_entries :
    CopiedBy (within (readCounted Entry.decode)) copyEntryList
      fun entries count => count = entries.length :=
  copiedBy_counted Entry.copied

/-- A record is its identity, the rest of its header and its entries, for the copy as well. -/
theorem copied :
    CopiedBy decode (copyVarints 1 >>= fun _ => within copyAfterId) fun _ done => done = () := by
  have hcopy : within copyAfterId =
      (within (copyBlocks 1) >>= fun _ => within (copyNumber >>= copyBlocks) >>= fun _ =>
        within (copyVarints 1)) >>= fun _ => within copyEntryList >>= fun _ => pure () := by
    unfold copyAfterId
    simp only [within_bind, within_pure, bind_assoc]
  have hentries := copied_entries.within
  rw [within_within] at hentries
  unfold decode Header.decode
  rw [hcopy, bind_assoc]
  refine copiedBy_u64.bind fun id _ _ => (Header.copied_afterId id).bind fun header _ _ => ?_
  exact hentries.bind fun entries _ _ => copiedBy_pure rfl

/-- **Copying agrees with decoding**, at every position of every block: a record is copied with
exactly the bytes that are decoded, a record that is cut off fails with the same numbers in its
error, and whatever is copied decodes alone as it does where it stands.  The same holds for
counted entries. -/
theorem copy_agrees :
    Copier.Agrees copy decode (fun _ => ()) ∧
      Copier.Agrees copyEntries (within (readCounted Entry.decode)) List.length :=
  ⟨copied.agrees, copied_entries.agrees⟩

/-- A record with an overlong number is copied as it is written. -/
example : ∃ t, copy { input := Reader.ofBytes [135, 0, 0, 0, 1, 0, 9], output := #[] } =
    .ok () t ∧ t.output = #[135, 0, 0, 0, 1, 0] := ⟨_, rfl, rfl⟩

end Record
end Folio
