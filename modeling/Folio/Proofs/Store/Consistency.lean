import Folio.Proofs.Store.Writing

/-! # The store and its names

Two operations file records, and they treat names differently.  A collection that is written takes
its name over and gives up every other name of its identity; bytes that are put in take over a name
and give up none.  So an identity can have several names, and a name can pass from one identity to
another.  Neither of them takes a record away, so whatever a name stands for is there
(`Consistent.perform`), and what a write leaves behind does not depend on how the store came to be
as it is (`files_file`).  **`stays_consistent`** puts this together for every sequence of
operations.
-/
namespace Folio.Store

/-! ## Operations -/

/-- What can be done to a store. -/
inductive Operation where
  | write (c : Collection)
  | putRaw (id : ObjectId) (name : String) (block : Bytes)
  | setReadOnly (readOnly : Bool)
deriving DecidableEq, Repr

/-- The store after an operation. -/
def perform (s : Store) : Operation → Store
  | .write c => (flushHook c s).2.2
  | .putRaw id name block => s.putRaw id name block
  | .setReadOnly readOnly => { s with readOnly }

/-- The store after several operations on an empty one. -/
def after (ops : List Operation) : Store := ops.foldl perform {}

/-- Whatever a name stands for is stored. -/
def Consistent (s : Store) : Prop :=
  ∀ n id, s.findByName? n = some id → s.contains id = true

section
variable {s : Store} {r : Record} {id : ObjectId} {n : String}

theorem contains_eq_isSome (s : Store) (id : ObjectId) : s.contains id = (s.raw? id).isSome := rfl

/-- Filing a record takes none away. -/
theorem contains_file (h : s.contains id = true) (r : Record) : (s.file r).contains id = true := by
  rw [contains_eq_isSome] at h ⊢
  rw [raw?_file]
  split
  · rfl
  · exact h

theorem Consistent.file (hs : s.Consistent) (r : Record) : (s.file r).Consistent := by
  intro n id hname
  rcases findByName?_file_iff.1 hname with ⟨-, rfl⟩ | ⟨-, -, hold⟩
  · rw [contains_eq_isSome, raw?_file, if_pos rfl]
    rfl
  · exact contains_file (hs n id hold) r

theorem Consistent.putRaw (hs : s.Consistent) (id : ObjectId) (name : String) (block : Bytes) :
    (s.putRaw id name block).Consistent := by
  intro n k hname
  have hraw : (s.putRaw id name block).raw? k = if k = id then some block else s.raw? k :=
    Table.get?_insert ..
  rw [contains_eq_isSome, hraw]
  split
  · rfl
  · rcases Table.get?_insert_cases hname with ⟨-, hk⟩ | ⟨-, hold⟩
    · exact absurd hk ‹_›
    · exact hs n k hold

/-- **Every operation leaves a consistent store consistent.** -/
theorem Consistent.perform (hs : s.Consistent) (op : Operation) : (s.perform op).Consistent := by
  cases op with
  | putRaw id name block => exact hs.putRaw id name block
  | setReadOnly readOnly => exact hs
  | write c =>
    simp only [Store.perform]
    cases hwrite : s.write c with
    | error e =>
      rw [flushHook_of_error hwrite]
      exact hs
    | ok s' =>
      rw [flushHook_of_ok hwrite, eq_file_of_write hwrite]
      exact hs.file c.content

theorem consistent_after (ops : List Operation) : (after ops).Consistent := by
  unfold after
  have hempty : Consistent {} := fun n id hname => by cases hname
  generalize ({} : Store) = s at hempty
  induction ops generalizing s with
  | nil => exact hempty
  | cons op ops ih => exact ih (s.perform op) (hempty.perform op)

/-! ## Writes -/

/-- **What it is to file a record** in the store `s`; `s'` is the store after that. -/
structure Files (s : Store) (r : Record) (s' : Store) : Prop where
  /-- It can be loaded. -/
  loads : ∀ timeout, s'.load r.id timeout = .ok (some (Collection.ofRecord r timeout))
  found : s'.findByName? r.name = some r.id
  /-- It has no other name. -/
  only : ∀ n, s'.findByName? n = some r.id → n = r.name
  /-- Other records stay as they are. -/
  others : ∀ id, id ≠ r.id → s'.raw? id = s.raw? id
  /-- Other identities keep their names, except for the one that the record takes over, and get no
  new ones. -/
  names : ∀ n id, id ≠ r.id →
    (s'.findByName? n = some id ↔ n ≠ r.name ∧ s.findByName? n = some id)
  readOnly_eq : s'.readOnly = s.readOnly

theorem files_file (s : Store) (hfits : r.Fits) : s.Files r (s.file r) where
  loads := load_of_has (s.has_file hfits)
  found := findByName?_file_iff.2 (Or.inl ⟨rfl, rfl⟩)
  only n hname := by
    rcases findByName?_file_iff.1 hname with ⟨hn, -⟩ | ⟨-, hid, -⟩
    · exact hn
    · exact absurd rfl hid
  others id hne := by rw [raw?_file, if_neg hne]
  names n id hne := by
    rw [findByName?_file_iff]
    constructor
    · rintro (⟨-, hid⟩ | ⟨hn, -, hold⟩)
      · exact absurd hid hne
      · exact ⟨hn, hold⟩
    · rintro ⟨hn, hold⟩
      exact Or.inr ⟨hn, hne, hold⟩
  readOnly_eq := rfl

end

/-- **What holds of a store after any operations.**  Every name stands for a record that is there.
A collection that is written next is filed, so that it is found and loaded and no other one is lost;
or the store is read-only, and then the write is refused and changes nothing. -/
theorem stays_consistent (ops : List Operation) (c : Collection) (hfits : c.content.Fits) :
    (after ops).Consistent ∧
    ((after ops).readOnly = false → ∃ s', (after ops).write c = .ok s' ∧
      after (ops ++ [.write c]) = s' ∧ (after ops).Files c.content s') ∧
    ((after ops).readOnly = true →
      (after ops).write c = .error (.flush c.content.id "collection store is read-only") ∧
      after (ops ++ [.write c]) = after ops) := by
  have hlast : after (ops ++ [.write c]) = (flushHook c (after ops)).2.2 :=
    List.foldl_append ..
  refine ⟨consistent_after ops, fun htakes => ?_, fun hrefuses => ?_⟩
  · have hwrite := write_eq_file htakes c
    rw [hlast, flushHook_of_ok hwrite]
    exact ⟨_, hwrite, rfl, files_file _ hfits⟩
  · have hwrite := write_refused hrefuses c
    rw [hlast, flushHook_of_error hwrite]
    exact ⟨hwrite, rfl⟩

/-- Two collections, and a second name of one of them, which was put in. -/
def twoNames : List Operation :=
  [.write { content := { id := 7, name := "/a" } },
    .putRaw 7 "/old" (Record.encode { id := 7, name := "/a" }),
    .write { content := { id := 8, name := "/b" } }]

/-- The second collection under a name of the first. -/
def renamed : Collection := { content := { id := 8, name := "/a" } }

/-- A collection takes over a name of another one, which keeps its other name; or the store is
read-only, and both keep theirs. -/
theorem stays_consistent_renamed :
    (after twoNames).Files renamed.content (after (twoNames ++ [.write renamed])) ∧
    ["/a", "/old", "/b"].map (after twoNames).findByName? = [some 7, some 7, some 8] ∧
    ["/a", "/old", "/b"].map (after (twoNames ++ [.write renamed])).findByName? =
      [some 8, some 7, none] ∧
    ["/a", "/old", "/b"].map
      (after (twoNames ++ [.setReadOnly true] ++ [.write renamed])).findByName? =
      [some 7, some 7, some 8] := by
  have hfits : renamed.content.Fits := by decide
  obtain ⟨-, htakes, -⟩ := stays_consistent twoNames renamed hfits
  obtain ⟨-, -, hrefuses⟩ := stays_consistent (twoNames ++ [.setReadOnly true]) renamed hfits
  obtain ⟨s', -, rfl, hfiles⟩ := htakes rfl
  obtain ⟨-, hsame⟩ := hrefuses rfl
  refine ⟨hfiles, by decide, by decide, ?_⟩
  rw [hsame]
  decide

end Folio.Store
