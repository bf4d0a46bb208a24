import Folio.Cache.Instance
import Folio.Codec.Counted
import Folio.Record.Decode
import Folio.Text.Quoted

/-!
Collections of documents in memory. Every change marks the collection dirty, so that a cache writes
it back before it lets it go.
-/
namespace Folio

open Cache (Cacheable Instance)

/-- The bytes of all texts in a record, without the fixed parts. -/
def Record.contentSize (r : Record) : Nat :=
  (r.name :: r.children ++ r.entries.map (·.name)).foldr (fun text n => text.utf8ByteSize + n) 0

instance : Cacheable Record where
  identity r := r.id
  name r := r.name
  size := Record.contentSize

/-- A collection in memory: a record that can be pinned, locked and changed. -/
abbrev Collection := Instance Record

namespace Collection

/-- A collection as it is stored. -/
def ofRecord (content : Record) (timeout : Option Duration) : Collection :=
  { content, lock := { timeout } }

def ofBytes (block : Bytes) (timeout : Option Duration) : Except Codec.Error Collection :=
  (Record.ofBytes block).map (ofRecord · timeout)

/-- A collection with a changed record. -/
def change (c : Collection) (record : Record) : Collection :=
  { c with content := record, dirty := true }

/-- Adds a child unless it is there; tells whether it was added. -/
def addChild (c : Collection) (child : String) : Bool × Collection :=
  let r := c.content
  if child ∈ r.children then (false, c)
  else (true, c.change { r with children := r.children ++ [child] })

/-- **A new child comes last**, and nothing happens to one that is there. -/
theorem addChild_spec (c : Collection) (child : String) :
    (c.addChild child).1 = decide (child ∉ c.content.children) ∧
    (∀ other, other ∈ (c.addChild child).2.content.children ↔
      other ∈ c.content.children ∨ other = child) ∧
    c.content.children <+: (c.addChild child).2.content.children ∧
    (c.content.children.Nodup → (c.addChild child).2.content.children.Nodup) ∧
    (c.addChild child).2 =
      if child ∈ c.content.children then c
      else c.change { c.content with children := (c.addChild child).2.content.children } := by
  unfold addChild
  by_cases hchild : child ∈ c.content.children
  · simp only [hchild, if_pos]
    refine ⟨rfl, fun other => ⟨Or.inl, ?_⟩, List.prefix_rfl, id, trivial⟩
    rintro (hother | rfl)
    · exact hother
    · exact hchild
  · simp only [hchild, if_neg, not_false_eq_true]
    refine ⟨rfl, fun other => by simp [change], List.prefix_append _ _, fun hnodup => ?_, rfl⟩
    exact List.nodup_append.2 ⟨hnodup, List.pairwise_singleton _ child, fun a ha b hb hab =>
      hchild (List.mem_singleton.1 hb ▸ hab ▸ ha)⟩

/-- Removes a child; tells whether it was there. -/
def removeChild (c : Collection) (child : String) : Bool × Collection :=
  let r := c.content
  if child ∈ r.children then (true, c.change { r with children := r.children.filter (· ≠ child) })
  else (false, c)

/-- **Every mention of the child goes**, and the others keep their order. -/
theorem removeChild_spec (c : Collection) (child : String) :
    (c.removeChild child).1 = decide (child ∈ c.content.children) ∧
    (c.removeChild child).2.content.children = c.content.children.filter (· ≠ child) ∧
    (c.removeChild child).2 =
      if child ∈ c.content.children then
        c.change { c.content with children := (c.removeChild child).2.content.children }
      else c := by
  unfold removeChild
  by_cases hchild : child ∈ c.content.children
  · simp only [hchild, if_pos]
    exact ⟨rfl, rfl, rfl⟩
  · simp only [hchild, if_false]
    refine ⟨rfl, (List.filter_eq_self.2 fun other hother => ?_).symm, trivial⟩
    exact decide_eq_true fun heq => hchild (heq ▸ hother)

/-- Adds an entry, in place of the one with the same identity, which is returned. -/
def addEntry (c : Collection) (entry : Entry) : Option Entry × Collection :=
  let r := c.content
  match r.entries.findIdx? (·.id = entry.id) with
  | some i => (r.entries[i]?, c.change { r with entries := r.entries.set i entry })
  | none => (none, c.change { r with entries := r.entries ++ [entry] })

/-- **An identity is found in the first entry that has it**, or no entry has it. -/
theorem entryPlace_cases (entries : List Entry) (id : ObjectId) :
    (entries.findIdx? (·.id = id) = none ∧ ∀ e ∈ entries, e.id ≠ id) ∨
    ∃ front old back, entries = front ++ old :: back ∧ old.id = id ∧ (∀ e ∈ front, e.id ≠ id) ∧
      entries.findIdx? (·.id = id) = some front.length := by
  cases hplace : entries.findIdx? (·.id = id) with
  | none => exact Or.inl ⟨rfl, fun e he => by simpa using List.findIdx?_eq_none_iff.1 hplace e he⟩
  | some i =>
    obtain ⟨hi, hold, hfront⟩ := List.findIdx?_eq_some_iff_getElem.1 hplace
    have hlength : (entries.take i).length = i := List.length_take_of_le (Nat.le_of_lt hi)
    refine Or.inr ⟨entries.take i, entries[i], entries.drop (i + 1), ?_, by simpa using hold, ?_,
      congrArg some hlength.symm⟩
    · rw [List.getElem_cons_drop, List.take_append_drop]
    · intro e he
      obtain ⟨j, hj, rfl⟩ := List.mem_take_iff_getElem.1 he
      simpa using hfront j (by omega)

/-- **An entry comes in the place of the one with its identity**, which is returned, or behind all
others if there is none.  All others stay, and the collection is marked in any case. -/
theorem addEntry_spec (c : Collection) (entry : Entry) :
    (∃ front old back, c.content.entries = front ++ old :: back ∧ old.id = entry.id ∧
      (∀ e ∈ front, e.id ≠ entry.id) ∧
      c.addEntry entry =
        (some old, c.change { c.content with entries := front ++ entry :: back })) ∨
    (∀ e ∈ c.content.entries, e.id ≠ entry.id) ∧
      c.addEntry entry =
        (none, c.change { c.content with entries := c.content.entries ++ [entry] }) := by
  unfold addEntry
  rcases entryPlace_cases c.content.entries entry.id with
    ⟨hplace, hnone⟩ | ⟨front, old, back, hsplit, hid, hfront, hplace⟩
  · refine Or.inr ⟨hnone, ?_⟩
    simp only [hplace]
  · simp only [hplace]
    refine Or.inl ⟨front, old, back, hsplit, hid, hfront, ?_⟩
    simp [hsplit]

/-- Removes the entry with an identity, which is returned. -/
def removeEntry (c : Collection) (id : ObjectId) : Option Entry × Collection :=
  let r := c.content
  match r.entries.findIdx? (·.id = id) with
  | some i => (r.entries[i]?, c.change { r with entries := r.entries.eraseIdx i })
  | none => (none, c)

/-- **The first entry with the identity goes**, and is returned; if there is none, nothing
happens. -/
theorem removeEntry_spec (c : Collection) (id : ObjectId) :
    (∃ front old back, c.content.entries = front ++ old :: back ∧ old.id = id ∧
      (∀ e ∈ front, e.id ≠ id) ∧
      c.removeEntry id = (some old, c.change { c.content with entries := front ++ back })) ∨
    (∀ e ∈ c.content.entries, e.id ≠ id) ∧ c.removeEntry id = (none, c) := by
  unfold removeEntry
  rcases entryPlace_cases c.content.entries id with
    ⟨hplace, hnone⟩ | ⟨front, old, back, hsplit, hid, hfront, hplace⟩
  · refine Or.inr ⟨hnone, ?_⟩
    simp only [hplace]
  · simp only [hplace]
    refine Or.inl ⟨front, old, back, hsplit, hid, hfront, ?_⟩
    simp [hsplit, List.eraseIdx_append_of_length_le]

/-- The first entry with a name. -/
def entry? (c : Collection) (name : String) : Option Entry :=
  c.content.entries.find? (·.name = name)

def setPermissions (c : Collection) (permissions : UInt32) : Collection :=
  c.change { c.content with permissions }

theorem setPermissions_spec (c : Collection) (permissions : UInt32) :
    (c.setPermissions permissions).content.permissions = permissions ∧
    c.setPermissions permissions =
      c.change { c.content with permissions := (c.setPermissions permissions).content.permissions } :=
  ⟨rfl, rfl⟩

def describe (c : Collection) : String :=
  let r := c.content
  "Collection \x7b id: " ++ toString r.id ++ ", name: " ++ Text.quoted r.name
    ++ ", children: " ++ toString r.children.length ++ ", entries: " ++ toString r.entries.length
    ++ ", ref_count: " ++ toString c.refCount ++ ", dirty: " ++ toString c.dirty ++ " \x7d"

end Collection
end Folio
