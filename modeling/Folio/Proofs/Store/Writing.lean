import Folio.Store
import Folio.Proofs.Record.RoundTrip

/-! # What a write leaves in the store

A write that is accepted files the record of a collection under its identity, makes its name stand
for that identity, and takes the identity's other names away (`file`).  What was filed is read back
as it was (`has_of_write`).  A write that is refused comes to nothing (`flushHook_of_error`).
-/
namespace Folio.Store

variable {s s' : Store} {c : Collection} {r : Record} {id : ObjectId} {n : String}

/-! ## Writes -/

/-- The store after a record was filed: under its identity, and under its name and no other one. -/
def file (s : Store) (r : Record) : Store :=
  { s with
    names := (s.names.filter fun _ id => id ≠ r.id).insert r.name r.id
    records := s.records.insert r.id r.encode }

theorem write_eq_file (h : s.readOnly = false) (c : Collection) :
    s.write c = .ok (s.file c.content) := by
  unfold write
  exact if_neg (Bool.not_eq_true _ ▸ h)

theorem write_refused (h : s.readOnly = true) (c : Collection) :
    s.write c = .error (.flush c.content.id "collection store is read-only") := by
  unfold write
  exact if_pos h

/-- What is written is the record. -/
theorem write_congr (s : Store) {c c' : Collection} (h : c.content = c'.content) :
    s.write c = s.write c' := by
  unfold write
  rw [h]

/-- A write that is accepted files the record. -/
theorem eq_file_of_write (h : s.write c = .ok s') : s' = s.file c.content := by
  unfold write at h
  split at h
  · cases h
  · cases h
    rfl

theorem write_eq (h : s.write c = .ok s') :
    s'.records = s.records.insert c.content.id c.content.encode := by
  rw [eq_file_of_write h]
  rfl

theorem names_write (h : s.write c = .ok s') :
    s'.names =
      (s.names.filter fun _ id => id ≠ c.content.id).insert c.content.name c.content.id := by
  rw [eq_file_of_write h]
  rfl

theorem flushHook_of_ok (h : s.write c = .ok s') : flushHook c s = (.ok (), c, s') := by
  unfold flushHook
  rw [h]

theorem flushHook_of_error {e : Cache.Error} (h : s.write c = .error e) :
    flushHook c s = (.error e, c, s) := by
  unfold flushHook
  rw [h]

/-! ## Records and names -/

theorem raw?_file (s : Store) (r : Record) (id : ObjectId) :
    (s.file r).raw? id = if id = r.id then some r.encode else s.raw? id :=
  Table.get?_insert ..

/-- A name stands for the record that was filed, or for another one as before. -/
theorem findByName?_file_iff :
    (s.file r).findByName? n = some id ↔
      n = r.name ∧ id = r.id ∨ n ≠ r.name ∧ id ≠ r.id ∧ s.findByName? n = some id := by
  show ((s.names.filter fun _ k => k ≠ r.id).insert r.name r.id).get? n = some id ↔ _
  rw [Table.get?_insert]
  split
  · rename_i hn
    simp [hn, eq_comm]
  · rename_i hn
    rw [Table.get?_filter_iff]
    simp [hn, and_comm, findByName?]

/-- A write leaves the records of other identities alone. -/
theorem raw?_write (h : s.write c = .ok s') (hne : id ≠ c.content.id) :
    s'.raw? id = s.raw? id := by
  rw [eq_file_of_write h, raw?_file, if_neg hne]

/-! ## Reading back -/

/-- A record is stored under an identity and can be read. -/
def Has (s : Store) (id : ObjectId) (r : Record) : Prop :=
  ∃ block, s.raw? id = some block ∧ Record.ofBytes block = .ok r

theorem load_of_has (h : s.Has id r) (timeout : Option Duration) :
    s.load id timeout = .ok (some (Collection.ofRecord r timeout)) := by
  obtain ⟨block, hraw, hread⟩ := h
  unfold load Collection.ofBytes
  simp only [hraw, hread]
  rfl

theorem has_file (s : Store) (hfits : r.Fits) : (s.file r).Has r.id r := by
  refine ⟨r.encode, ?_, Record.ofBytes_encode hfits⟩
  rw [raw?_file, if_pos rfl]

/-- **What is written can be read.** -/
theorem has_of_write (h : s.write c = .ok s') (hfits : c.content.Fits) :
    s'.Has c.content.id c.content := by
  rw [eq_file_of_write h]
  exact s.has_file hfits

theorem has_congr (hraw : s'.raw? id = s.raw? id) (h : s.Has id r) : s'.Has id r := by
  obtain ⟨block, hblock, hread⟩ := h
  exact ⟨block, hraw.trans hblock, hread⟩

theorem Has.unique {r' : Record} (h : s.Has id r) (h' : s.Has id r') : r = r' := by
  obtain ⟨block, hraw, hread⟩ := h
  obtain ⟨block', hraw', hread'⟩ := h'
  obtain rfl := Option.some.inj (hraw.symm.trans hraw')
  exact Except.ok.inj (hread.symm.trans hread')

end Folio.Store
