import Folio.Codec.Reader

/-!
Measuring, skipping and copying encoded values without evaluating them. A span function measures
how many of the unread bytes a number of values takes up; skipping advances over a span and copying
appends it to an output. A span that cannot be measured is neither skipped nor copied in part.
-/
namespace Folio.Codec

/-- Measures the values at the head of a block. -/
abbrev Span := Bytes → Except Error Nat

namespace Span

/-- `count` numbers, one after another. -/
def varints : (count : Nat) → Span
  | 0, _ => .ok 0
  | count + 1, bytes => do
    let first ← Varint.extent bytes
    let others ← (varints count (bytes.drop first)).mapError Error.within
    return first + others

/-- One block preceded by its length. -/
def block (bytes : Bytes) : Except Error Nat := do
  let (size, lead) ← Varint.decode bytes
  let body := bytes.drop lead
  if hasAtLeast size body then return lead + size else throw (.truncated size body.length)

/-- `count` blocks, each preceded by its length. -/
def blocks : (count : Nat) → Span
  | 0, _ => .ok 0
  | count + 1, bytes => do
    let first ← block bytes
    let others ← (blocks count (bytes.drop first)).mapError Error.within
    return first + others

/-- Exactly `count` bytes. -/
def raw (count : Nat) (bytes : Bytes) : Except Error Nat :=
  if hasAtLeast count bytes then .ok count else .error (.truncated count bytes.length)

end Span

/-- Takes what `span` measures off the unread bytes. -/
def takeSpan (span : Span) : Decoder Bytes :=
  .ofUnread fun bytes => (span bytes).map fun length => (bytes.take length, length)

/-- Advances over what `span` measures. -/
def skipSpan (span : Span) : Decoder Unit := do
  let _ ← takeSpan span

/-- Advances over `count` numbers. -/
def skipVarints (count : Nat) : Decoder Unit := skipSpan (.varints count)

/-- Advances over `count` blocks, each preceded by its length. -/
def skipBlocks (count : Nat) : Decoder Unit := skipSpan (.blocks count)

/-- Advances over `count` bytes. -/
def skipRaw (count : Nat) : Decoder Unit := skipSpan (.raw count)

/-! ### Copying -/

/-- A copy under way: where the input is read and what has been written. -/
structure Transfer where
  input : Reader
  output : Array UInt8
deriving DecidableEq, Repr

/-- A copying step. -/
abbrev Copier := EStateM Error Transfer

namespace Copier

/-- Runs a reading step on the input. -/
def reading {α : Type} (step : Decoder α) : Copier α := fun t =>
  match step t.input with
  | .ok a r => .ok a { t with input := r }
  | .error e r => .error e { t with input := r }

/-- Appends bytes to the output. -/
def append (bytes : Bytes) : Copier Unit := modify fun t => { t with output := t.output ++ bytes }

/-- Makes a step all or nothing: if it fails, input and output are as they were before. -/
def atomically {α : Type} (step : Copier α) : Copier α := fun t =>
  match step t with
  | .ok a t' => .ok a t'
  | .error e _ => .error e t

end Copier

/-- Copies what `span` measures, byte for byte. -/
def copySpan (span : Span) : Copier Unit := do
  Copier.append (← Copier.reading (takeSpan span))

/-- Copies `count` numbers. -/
def copyVarints (count : Nat) : Copier Unit := copySpan (.varints count)

/-- Copies `count` blocks, each preceded by its length. -/
def copyBlocks (count : Nat) : Copier Unit := copySpan (.blocks count)

/-- Copies `count` bytes. -/
def copyRaw (count : Nat) : Copier Unit := copySpan (.raw count)

/-- Copies one number as it is written and tells its value, such as the count of the items that
follow. -/
def copyNumber : Copier Nat := do
  let (n, written) ← Copier.reading <| .ofUnread fun bytes =>
    (Varint.decode bytes).map fun (n, length) => ((n, bytes.take length), length)
  Copier.append written
  return n

end Folio.Codec
