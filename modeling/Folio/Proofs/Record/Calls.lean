import Folio.Proofs.Codec.Calls
import Folio.Proofs.Record.Canonical
import Folio.Proofs.Record.Skipping

/-! # Counts that need not be trusted

A record has two counts, and whoever wrote it may have put any number there.  Nothing checks a
count against the data: what bounds the work is that every item takes bytes, a child one at least
and an entry four, and that a walk ends with its first failure.

**`Record.calls_bounded`** says so of the loops over any item that takes a byte, and then of the
walks over a record: a decoded record is larger than its children and its entries together
(`Record.LaidOut.length_lt`), and an entry list that is skipped or copied is given up after at most
one entry more than there are bytes.
-/
namespace Folio

open Codec Decoder Copier

/-! ## What an entry takes -/

theorem Entry.LaidOut.four_le_length {code : Bytes} {numbers : List Bytes} {entry : Entry}
    (h : entry.LaidOut code numbers) : 4 ≤ code.length :=
  (Entry.LaidOut.grammar_iff.1 ⟨numbers, h⟩).four_le_length

theorem Entry.spends_decode : Spends Reader.remaining 4 Entry.decode :=
  Entry.parses.spends fun _ _ h => h.four_le_length

theorem Entry.spends_skip : Spends Reader.remaining 4 Entry.skip :=
  (spends_skipVarints 1).bind fun _ => (spends_skipBlocks 1).bind fun _ =>
    (spends_skipRaw 1).bind fun _ => spends_skipVarints 1

theorem Entry.spends_copy : Spends (·.input.remaining) 4 Entry.copy :=
  Entry.skippedBy.spends Entry.spends_skip

theorem Codec.Text.LaidOut.length_pos {code : Bytes} {numbers : List Bytes} {text : String}
    (h : Text.LaidOut code numbers text) : 1 ≤ code.length := by
  obtain ⟨spells, -⟩ := h
  have hlead := spells.length_pos
  rw [List.length_append]
  omega

namespace Record

variable {record : Record}

/-- **A record is larger than what it counts**: there is a byte for each child, and four for each
entry, besides the counts themselves. -/
theorem LaidOut.length_lt {code : Bytes} {numbers : List Bytes} (h : record.LaidOut code numbers) :
    record.children.length + 4 * record.entries.length < code.length := by
  obtain ⟨⟨-, -, ⟨-, -, children⟩, permissions⟩, ⟨count, -, entries⟩⟩ := h
  have hchildren := (Layout.series_grammar_iff.2 ⟨_, children⟩).mul_le_length
    fun _ _ ⟨_, htext⟩ => htext.length_pos
  have hentries := (Layout.series_grammar_iff.2 ⟨_, entries⟩).mul_le_length
    fun _ _ ⟨_, hentry⟩ => hentry.four_le_length
  have hcount := count.length_pos
  simp only [List.length_append]
  rw [Nat.one_mul] at hchildren
  omega

/-- What is decoded takes up more bytes than it has children and, four times, entries. -/
theorem length_lt_of_decode {r r' : Reader} (h : decode r = .ok record r') :
    ∃ k ≤ r.remaining, r' = r.advance k ∧
      record.children.length + 4 * record.entries.length < k := by
  obtain ⟨code, hprefix, ⟨numbers, hcode⟩, rfl⟩ := (LaidOut.parses _ _ _).1 h
  exact ⟨code.length, r.remaining_eq ▸ hprefix.length_le, rfl, hcode.length_lt⟩

/-! ## Walks over the entries -/

/-- The walk that skips the entries, with a meter that each entry moves on. -/
def skipEntriesMetered : EStateM Error (Reader × Nat) Nat := do
  let count ← metered 0 (within (readUnsigned 64))
  let _ ← times (within (metered 1 Entry.skip)) count
  return count

/-- The walk that copies the entries, with a meter that each entry moves on. -/
def copyEntriesMetered : EStateM Error (Transfer × Nat) Nat :=
  putBackMetered do
    let count ← metered 0 (within copyNumber)
    let _ ← times (within (metered 1 Entry.copy)) count
    return count

theorem meters_skipEntries : Meters skipEntriesMetered skipEntries (·.remaining + 1) := by
  have hentry : Spends Reader.remaining 1 Entry.skip := Entry.spends_skip.mono (by decide)
  rw [skipEntries_eq]
  exact .behind (fun count => (meters_items hentry count).map fun _ => count)
    (spends_unsigned.within.mono (Nat.zero_le 1))

theorem meters_copyEntries : Meters copyEntriesMetered copyEntries (·.input.remaining + 1) := by
  have hentry : Spends (·.input.remaining) 1 Entry.copy := Entry.spends_copy.mono (by decide)
  have hnumber := skippedBy_number.spends spends_unsigned
  rw [copyEntries, atomically_eq_putBack]
  exact .putBack (.behind (fun count => (meters_items hentry count).map fun _ => count)
    (hnumber.within.mono (Nat.zero_le 1)))

/-- **No count drives the work beyond the bytes that are there.**  An item that takes at least one
byte whenever it succeeds is called at most once more than there are bytes, whatever count it is
read under, and not more often than there are bytes up to the end of the data; a count that is
larger than the number of bytes behind it is refused.  So a decoded record is larger than its
children and four times its entries together, and the walks that skip or copy an entry list look at
no more than one entry beyond the number of its bytes. -/
theorem calls_bounded :
    (∀ {α : Type} (item : Decoder α), Spends Reader.remaining 1 item →
      (∀ count, Meters (times (within (metered 1 item)) count) (readTimes count item)
        (·.remaining + 1)) ∧
      (∀ count r, r.remaining < count → ∃ e r', readTimes count item r = .error e r') ∧
      Meters (metered 0 (readUnsigned 64) >>= times (within (metered 1 item))) (readCounted item)
        (·.remaining + 1) ∧
      (∀ r count now, readUnsigned 64 r = .ok count now → now.remaining < count →
        ∃ e r', readCounted item r = .error e r') ∧
      untilEnd Reader.remaining item = readToEnd item ∧
      Meters (untilEnd (·.1.remaining) (metered 1 item)) (readToEnd item) (·.remaining)) ∧
    (∀ r record r', decode r = .ok record r' →
      ∃ k ≤ r.remaining, r' = r.advance k ∧
        record.children.length + 4 * record.entries.length < k) ∧
    Meters skipEntriesMetered skipEntries (·.remaining + 1) ∧
    Meters copyEntriesMetered copyEntries (·.input.remaining + 1) := by
  refine ⟨fun item hspends => ⟨meters_items hspends, fun count r => hspends.within.times_error,
    meters_readCounted hspends, fun r count now => readCounted_error hspends,
    untilEnd_remaining item, ?_⟩, fun r record r' => length_lt_of_decode, meters_skipEntries,
    meters_copyEntries⟩
  have huntil := meters_untilEnd hspends
  rwa [untilEnd_remaining] at huntil

/-- A list of bytes that announces as many as a count can say and has two of them, and a record with
one child and one entry, of which the last byte is not read. -/
theorem calls_bounded_hostile :
    (∃ e r', readCounted readByte
      (Reader.ofBytes [255, 255, 255, 255, 255, 255, 255, 255, 255, 1, 7, 8]) = .error e r') ∧
    ∃ record r', decode (Reader.ofBytes [7, 1, 97, 1, 0, 0, 1, 5, 0, 9, 6, 42]) = .ok record r' ∧
      record.children = [""] ∧ record.entries.map (·.id) = [5] ∧
      ∃ k ≤ 12, r' = (Reader.ofBytes [7, 1, 97, 1, 0, 0, 1, 5, 0, 9, 6, 42]).advance k ∧
        record.children.length + 4 * record.entries.length < k := by
  have hbyte : Spends Reader.remaining 1 readByte :=
    parses_byte.spends fun code byte => by
      rintro rfl
      exact Nat.le_refl 1
  have hrecord : decode (Reader.ofBytes [7, 1, 97, 1, 0, 0, 1, 5, 0, 9, 6, 42]) =
      .ok
        { id := 7, name := "a", children := [""], permissions := 0
          entries := [{ id := 5, name := "", type := 9, lastModified := 6 }] } _ := rfl
  exact ⟨(calls_bounded.1 readByte hbyte).2.2.2.1 _ (2 ^ 64 - 1) _ rfl (by decide),
    _, _, hrecord, rfl, rfl, calls_bounded.2.1 _ _ _ hrecord⟩

end Record
end Folio
