import Folio.Proofs.Codec.Skipping
import Folio.Proofs.Record.Copying

/-! # Records that are skipped

Only the header of a record is wanted at times, and its entries are skipped.  The skip measures
each entry where a decoder evaluates it, and the two stay together: **`Record.skip_agrees`**, for
any data.  A skip goes on where the decoder refuses a value, a text that is no UTF-8 or a number
that is too large, but it never comes to another place, and where the data run out for the decoder
they run out for the skip.

The entries are skipped as they are copied (`Record.skippedBy_entryList`), and of the copy it is
known that it follows the decoder.
-/
namespace Folio

open Codec Decoder Copier

theorem Entry.skippedBy : Entry.copy.SkippedBy Entry.skip :=
  (skippedBy_span _).bind fun _ => (skippedBy_span _).bind fun _ => (skippedBy_span _).bind fun _ =>
    skippedBy_span _

/-- **What is decoded is skipped**: an entry ends where its decoder stops. -/
theorem Entry.skip_of_decode {r r' : Reader} {entry : Entry} (h : Entry.decode r = .ok entry r') :
    Entry.skip r = .ok () r' := by
  have hdecode : within Entry.decode r = .ok entry r' := within_eq_ok_iff.2 h
  have htrue : (fun (_ : Entry) (_ : Unit) => True) = fun _ done => done = () := by
    funext _ _
    exact (eq_self _).symm
  have hcopied : CopiedBy (within Entry.decode) (within Entry.copy) fun _ done => done = () :=
    htrue ▸ Entry.copied
  exact within_eq_ok_iff.1 ((hcopied.skips Entry.skippedBy.within r).1 entry r' hdecode)

namespace Record

/-- The count is read, and then so many entries are skipped. -/
theorem skipEntries_eq : skipEntries =
    within (readUnsigned 64) >>= fun count =>
      times (within Entry.skip) count >>= fun _ => pure count := by
  unfold skipEntries CountedList.start
  simp only [within_bind, within_pure, bind_assoc, pure_bind, CountedList.drain_eq,
    CountedList.finish_drained, Nat.sub_zero]
  rfl

theorem skippedBy_entryList : copyEntryList.SkippedBy skipEntries := by
  rw [skipEntries_eq]
  exact skippedBy_number.within.bind fun count =>
    (Entry.skippedBy.within.times count).bind fun _ => skippedBy_pure count

theorem blamesData_skipEntries : BlamesData skipEntries := by
  have hentry : BlamesData Entry.skip :=
    (blamesData_skipVarints 1).bind fun _ => (blamesData_skipBlocks 1).bind fun _ =>
      (blamesData_skipRaw 1).bind fun _ => blamesData_skipVarints 1
  rw [skipEntries_eq]
  exact blamesData_unsigned.within.bind fun count =>
    (hentry.within.times count).bind fun _ => blamesData_pure count

/-- **Skipping agrees with reading.**  Any number of numbers is skipped exactly where so many stand
one after another, and of blocks as so many reads would; an entry that is decoded is skipped to the
same place.  So if a record is decoded, its header is, and behind that its entries are skipped, with
their number, to where the decoder stopped.  If the entries are cut off, the skip fails with the
same error, and it never finds that their count is wrong. -/
theorem skip_agrees :
    (∀ count, (skipVarints count).Parses fun code _ =>
      ∃ values : List Nat, values.length = count ∧ Series Varint.Spells code values) ∧
    (∀ count r r', skipBlocks count r = .ok () r' ↔
      ∃ blocks, times readBlock count r = .ok blocks r') ∧
    (∀ r entry r', Entry.decode r = .ok entry r' → Entry.skip r = .ok () r') ∧
    (∀ r record r', decode r = .ok record r' →
      ∃ now, Header.decode r = .ok record.toHeader now ∧
        skipEntries now = .ok record.entries.length r') ∧
    (∀ r needed available r',
      within (readCounted Entry.decode) r = .error (.truncated needed available) r' →
        ∃ r'', skipEntries r = .error (.truncated needed available) r'') ∧
    ∀ r declared found r', skipEntries r ≠ .error (.countMismatch declared found) r' := by
  have hentries := copied_entries.skips skippedBy_entryList
  refine ⟨parses_skipVarints, fun count r r' => skipBlocks_eq_ok_iff,
    fun r entry r' => Entry.skip_of_decode, fun r record r' h => ?_,
    fun r needed available r' h => (hentries r).2 _ r' trivial h, fun r declared found r' h => ?_⟩
  · obtain ⟨header, now, hheader, hrest⟩ := bind_eq_ok_iff.1 h
    obtain ⟨entries, stop, hread, hrecord⟩ := bind_eq_ok_iff.1 hrest
    cases hrecord
    exact ⟨now, hheader, (hentries now).1 entries _ hread⟩
  · exact (blamesData_skipEntries r _ r' h).elim id id

/-- A record with two entries, of which the first has an overlong identity: that entry alone, the
whole record with a byte behind it, and the entries where the second one is cut off. -/
theorem skip_agrees_two_entries :
    (∃ r', Entry.skip (Reader.ofBytes [133, 0, 1, 98, 9, 6]) = .ok () r' ∧ r'.position = 6) ∧
    (∃ now r', Header.decode
          (Reader.ofBytes [7, 1, 97, 0, 0, 2, 133, 0, 1, 98, 9, 6, 8, 0, 1, 4, 42]) =
        .ok { id := 7, name := "a", permissions := 0 } now ∧
      skipEntries now = .ok 2 r' ∧ r'.unread = [42]) ∧
    ∃ r', skipEntries (Reader.ofBytes [2, 133, 0, 1, 98, 9, 6, 8, 0]) =
      .error (.truncated 1 0) r' := by
  have hentry : Entry.decode (Reader.ofBytes [133, 0, 1, 98, 9, 6]) =
      .ok { id := 5, name := "b", type := 9, lastModified := 6 } _ := rfl
  have hrecord : decode
        (Reader.ofBytes [7, 1, 97, 0, 0, 2, 133, 0, 1, 98, 9, 6, 8, 0, 1, 4, 42]) =
      .ok
        { id := 7, name := "a", permissions := 0
          entries :=
            [{ id := 5, name := "b", type := 9, lastModified := 6 },
              { id := 8, name := "", type := 1, lastModified := 4 }] } _ := rfl
  obtain ⟨now, hheader, hskip⟩ := skip_agrees.2.2.2.1 _ _ _ hrecord
  exact ⟨⟨_, skip_agrees.2.2.1 _ _ _ hentry, rfl⟩, ⟨now, _, hheader, hskip, rfl⟩,
    skip_agrees.2.2.2.2.1 _ _ _ _ rfl⟩

end Record
end Folio
