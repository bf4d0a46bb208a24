import Folio.Codec.Span

/-!
Lists in encoded data. A counted list is preceded by the number of its items, an open-ended one
runs to the end of the data. Inside either, running out of bytes is a truncation. A count is never
trusted: each item has to be read before the next one is asked for.
-/
namespace Folio.Codec

/-- Runs `item` `count` times; `item` decides what a failure inside the list is. -/
def times {σ α : Type} (item : EStateM Error σ α) : (count : Nat) → EStateM Error σ (List α)
  | 0 => pure []
  | count + 1 => do
    let first ← item
    let others ← times item count
    return first :: others

/-- Reads exactly `count` items. -/
def readTimes {α : Type} (count : Nat) (item : Decoder α) : Decoder (List α) :=
  times (within item) count

/-- Reads a count and that many items. -/
def readCounted {α : Type} (item : Decoder α) : Decoder (List α) := do
  readTimes (← readUnsigned 64) item

/-- Reads items up to the end of the data. An item that takes no bytes could be repeated without
end; the list ends with it. -/
def readToEnd {α : Type} (item : Decoder α) : Decoder (List α) := fun r =>
  if r.unread.isEmpty then .ok [] r
  else
    match within item r with
    | .error e r' => .error e r'
    | .ok first r' =>
      if r'.remaining < r.remaining then
        match readToEnd item r' with
        | .ok others r'' => .ok (first :: others) r''
        | .error e r'' => .error e r''
      else .ok [first] r'
termination_by r => r.remaining

/-- The largest count that can be declared, and the limit of a product of counts. -/
def maxCount : Nat := Varint.bound 64 - 1

/-- A counted list that is being consumed item by item. -/
structure CountedList where
  /-- The number of items that the data announces. -/
  declared : Nat
  /-- The number of items passed so far. -/
  consumed : Nat
  consumed_le : consumed ≤ declared := by omega

namespace CountedList

/-- Reads the count of a list. -/
def start : Decoder CountedList := do
  let declared ← readUnsigned 64
  return { declared, consumed := 0 }

/-- The list after every item. -/
def drained (list : CountedList) : CountedList where
  declared := list.declared
  consumed := list.declared

/-- Reads the next item with `item`; `none` once all of the declared items are consumed. -/
def next {α : Type} (list : CountedList) (item : Decoder α) :
    Decoder (Option α × CountedList) :=
  if h : list.consumed = list.declared then return (none, list)
  else do
    let a ← within item
    have := list.consumed_le
    return (some a, { declared := list.declared, consumed := list.consumed + 1 })

/-- Reads the items that are left, one after another. -/
def drain (list : CountedList) (item : Decoder Unit) : Decoder CountedList :=
  if h : list.consumed = list.declared then return list
  else do
    within item
    have := list.consumed_le
    drain { declared := list.declared, consumed := list.consumed + 1 } item
termination_by list.declared - list.consumed
decreasing_by omega

/-- Skips the items that are left, each made of `perItem` numbers. A count that the unread bytes
cannot hold is refused before anything is skipped. -/
def skipRest (list : CountedList) (perItem : Nat) : Decoder CountedList := do
  let available := (← get).remaining
  let numbers := min ((list.declared - list.consumed) * perItem) maxCount
  if available < numbers then throw (.truncated numbers available)
  within (skipVarints numbers)
  return list.drained

/-- Closes the list, which fails unless every declared item was consumed. -/
def finish (list : CountedList) : Except Error Unit :=
  if list.consumed = list.declared then .ok ()
  else .error (.countMismatch list.declared list.consumed)

end CountedList
end Folio.Codec
