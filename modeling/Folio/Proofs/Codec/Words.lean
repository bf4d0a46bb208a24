import Folio.Codec.Counted

/-! # The reader in machine words

Elsewhere a reader is a list of bytes that gets shorter, and its positions, lengths and counts are
numbers without a limit, so nothing can go wrong in adding them up.  A reader on a machine keeps the
whole block and an index into it, and adds words.  This module says how each step is carried out
there, with everything that can go wrong: a sum that is too large for a word, a difference below
zero, a slice that does not lie in its block, a cursor behind the end of the data or, in going back,
behind itself.  Each of these is a fault (`Checked.fault`), and a fault is no error of the data:
nothing catches it.

What a sum, a slice and a move of the cursor come to is said once (`add_of_le`, `slice_of_le`,
`advance_eq`), each under the bound that it needs.  That the bounds hold wherever the steps need
them is what the modules behind this one show.
-/
namespace Folio.Codec

/-- Where a machine stands in its block, and what it has written. -/
structure Place where
  /-- The index of the next byte. -/
  position : Nat
  output : Array UInt8 := #[]
deriving DecidableEq, Repr

/-- A place further on. -/
def Place.pass (p : Place) (n : Nat) : Place := { p with position := p.position + n }

/-- A step on a machine.  It ends with a value or an error and is somewhere then, or it is a
fault, which is `none`. -/
abbrev Checked := ExceptT Error (StateT Place Option)

/-- What is counted in a row: numbers, or blocks that are preceded by their lengths. -/
inductive Item where
  | number | block
deriving DecidableEq, Repr

namespace Checked

variable {α β : Type}

/-! ## Words, slices and the cursor -/

def fault : Checked α := fun _ => none

/-- Goes on if a condition holds. -/
def assert (holds : Prop) [Decidable holds] : Checked Unit := if holds then pure () else fault

/-- A sum of words, which has to be a word. -/
def add (n m : Nat) : Checked Nat := if n + m ≤ maxCount then pure (n + m) else fault

/-- A difference of words, which has to be one. -/
def sub (n m : Nat) : Checked Nat := if m ≤ n then pure (n - m) else fault

/-- The bytes from index `first` up to index `last`. -/
def slice (bytes : Bytes) (first last : Nat) : Checked Bytes :=
  if first ≤ last ∧ last ≤ bytes.length then pure (bytes.extract first last) else fault

def position : Checked Nat := return (← get).position

/-- Appends bytes to the output. -/
def put (bytes : Bytes) : Checked Unit := modify fun p => { p with output := p.output ++ bytes }

/-- Drops what stands in the output behind its first `size` bytes. -/
def truncate (size : Nat) : Checked Unit := modify fun p => { p with output := p.output.take size }

/-- Goes on after an error, and tells it. -/
def attempt (step : Checked α) : Checked (Except Error α) :=
  tryCatch (Except.ok <$> step) fun e => pure (.error e)

/-- Runs a step inside a value that has begun, if `begun` says so. -/
def withinIf (begun : Bool) (step : Checked α) : Checked α :=
  tryCatch step fun e => throw (if begun then e.within else e)

section
variable (block : Bytes)

/-- Sets the cursor, which stays in the block. -/
def moveTo (n : Nat) : Checked Unit := do
  assert (n ≤ block.length)
  modify fun p => { p with position := n }

def advance (n : Nat) : Checked Unit := do moveTo block (← add (← position) n)

/-- Goes back to an earlier position. -/
def rewind (n : Nat) : Checked Unit := do
  assert (n ≤ (← position))
  moveTo block n

def remaining : Checked Nat := do sub block.length (← position)

def unread : Checked Bytes := do slice block (← position) block.length

/-- Runs two steps.  If the second one fails, the cursor goes back to where the first one found
it. -/
def andThen (first : Checked α) (second : α → Checked β) : Checked β := do
  let start ← position
  let a ← first
  tryCatch (second a) fun e => do
    rewind block start
    throw e

/-- Makes a step all or nothing.  All that is kept of the start is the position and how much had
been written. -/
def atomically (step : Checked α) : Checked α := do
  let start ← get
  tryCatch step fun e => do
    rewind block start.position
    truncate start.output.size
    throw e

/-! ## Reads -/

/-- The length of the number that begins `offset` bytes past the cursor. -/
def extentAt (offset : Nat) : Checked Nat := do
  let rest ← slice block (← add (← position) offset) block.length
  if rest.isEmpty then throw .endOfData
  match (rest.take Varint.maxLength).findIdx? Varint.endsNumber with
  | some last => add last 1
  | none =>
    if Varint.maxLength ≤ rest.length then throw (.overflow 64)
    else throw (.truncated (← add rest.length 1) rest.length)

/-- The value of a number's bytes, and how many of them it takes. -/
def evaluate (code : Bytes) : Checked (Nat × Nat) :=
  match Varint.decode code with
  | .ok number => pure number
  | .error _ => throw (.overflow 64)

/-- The bytes of the number at the cursor, with what they are evaluated to. -/
def peek : Checked (Bytes × Nat × Nat) := do
  let length ← extentAt block 0
  let code ← slice (← unread block) 0 length
  return (code, ← evaluate code)

def number : Checked Nat := do
  let (code, n, used) ← peek block
  assert (used = code.length)
  advance block code.length
  return n

def integer : Checked Int := do
  let (code, n, _) ← peek block
  advance block code.length
  return Varint.unzigzag n

/-- A number that is to fit into `width` bits; the cursor goes back if it does not. -/
def unsigned (width : Nat) : Checked Nat :=
  andThen block (number block) fun n =>
    if n < Varint.bound width then pure n else throw (.overflow width)

/-- A signed number that is to fit into `width` bits. -/
def signed (width : Nat) : Checked Int :=
  andThen block (integer block) fun i =>
    let half : Int := Varint.bound (width - 1)
    if -half ≤ i ∧ i < half then pure i else throw (.overflow width)

def byte : Checked UInt8 := do
  match ← unread block with
  | [] => throw .endOfData
  | b :: _ =>
    advance block 1
    return b

/-- The next `count` bytes. -/
def raw (count : Nat) : Checked Bytes := do
  if (← remaining block) < count then throw (.truncated count (← remaining block))
  let first ← position
  let bytes ← slice block first (← add first count)
  advance block count
  return bytes

/-- A number in exactly `count` bytes. -/
def fixed (count : Nat) : Checked Nat := do
  if (← remaining block) = 0 then throw .endOfData
  let bytes ← raw block count
  assert (bytes.length = count)
  return bigEndian bytes

/-- A block preceded by its length. -/
def content : Checked Bytes := andThen block (number block) (raw block)

def text : Checked String :=
  andThen block (content block) fun bytes => ofExcept ((Utf8.decode bytes).mapError .invalidUtf8)

/-! ## Skips and copies -/

/-- The length of the block that begins `offset` bytes past the cursor, with that of its lead. -/
def contentAt (offset : Nat) : Checked Nat := do
  let lead ← extentAt block offset
  let first ← add (← position) offset
  let (size, _) ← evaluate (← slice block first (← add first lead))
  let available ← sub (← sub (← remaining block) offset) lead
  if available < size then throw (.truncated size available)
  add lead size

/-- The length of the item that begins some bytes past the cursor. -/
def itemAt : Item → (offset : Nat) → Checked Nat
  | .number => extentAt block
  | .block => contentAt block

/-- Measures `count` items in a row, the first of which begins `span` bytes past the cursor. -/
def measure (item : Item) (begun : Bool) : (count span : Nat) → Checked Nat
  | 0, span => pure span
  | count + 1, span => do
    let length ← withinIf begun (itemAt block item span)
    measure item true count (← add span length)

def skip (item : Item) (count : Nat) : Checked Unit := do
  advance block (← measure block item false count 0)

def copy (item : Item) (count : Nat) : Checked Unit := do
  let span ← measure block item false count 0
  put (← slice (← unread block) 0 span)
  advance block span

def skipRaw (count : Nat) : Checked Unit := do
  let _ ← raw block count

def copyRaw (count : Nat) : Checked Unit := do
  put (← raw block count)

/-- Copies one number as it is written and tells its value. -/
def copyNumber : Checked Nat := do
  let (code, n, _) ← peek block
  put code
  advance block code.length
  return n

end

/-! ## What steps come to -/

/-! ### One after another -/

section
variable {step : Checked α} {f : α → Checked β} {p p' : Place} {a : α} {e : Error}

theorem bind_of_ok (h : step p = some (.ok a, p')) : (step >>= f) p = f a p' := by
  show Option.bind (step p) _ = _
  rw [h]
  rfl

theorem bind_of_error (h : step p = some (.error e, p')) :
    (step >>= f) p = some (.error e, p') := by
  show Option.bind (step p) _ = _
  rw [h]
  rfl

/-- A step that leaves everything as it was is no more than its outcome. -/
theorem bind_of_eq {outcome : Except Error α} (h : step p = some (outcome, p)) :
    (step >>= f) p = (ofExcept outcome >>= f) p := by
  cases outcome with
  | ok a => exact bind_of_ok h
  | error e => exact bind_of_error h

theorem tryCatch_of_ok {handle : Error → Checked α} (h : step p = some (.ok a, p')) :
    tryCatch step handle p = some (.ok a, p') := by
  show Option.bind (step p) _ = _
  rw [h]
  rfl

theorem tryCatch_of_error {handle : Error → Checked α} (h : step p = some (.error e, p')) :
    tryCatch step handle p = handle e p' := by
  show Option.bind (step p) _ = _
  rw [h]
  rfl

theorem position_bind (f : Nat → Checked α) (p : Place) :
    (position >>= f) p = f p.position p := rfl

end

/-! ### Words, slices and the cursor -/

theorem add_of_le {n m : Nat} (h : n + m ≤ maxCount) : add n m = pure (n + m) := if_pos h

theorem sub_of_le {n m : Nat} (h : m ≤ n) : sub n m = pure (n - m) := if_pos h

theorem assert_of {holds : Prop} [Decidable holds] (h : holds) : assert holds = pure () := if_pos h

theorem slice_of_le {bytes : Bytes} {first length : Nat} (h : first + length ≤ bytes.length) :
    slice bytes first (first + length) = pure ((bytes.drop first).take length) := by
  rw [slice, if_pos ⟨Nat.le_add_right .., h⟩, List.extract_eq_take_drop, Nat.add_sub_cancel_left]

theorem slice_to_end {bytes : Bytes} {first : Nat} (h : first ≤ bytes.length) :
    slice bytes first bytes.length = pure (bytes.drop first) := by
  rw [slice, if_pos ⟨h, Nat.le_refl _⟩, List.extract_eq_take_drop,
    List.take_of_length_le (Nat.le_of_eq List.length_drop)]

theorem slice_from_start {bytes : Bytes} {length : Nat} (h : length ≤ bytes.length) :
    slice bytes 0 length = pure (bytes.take length) := by
  rw [slice, if_pos ⟨Nat.zero_le _, h⟩]
  rfl

section
variable {block : Bytes} {p : Place}

theorem moveTo_eq {n : Nat} (hn : n ≤ block.length) (p : Place) :
    moveTo block n p = some (.ok (), { p with position := n }) := by
  rw [moveTo, assert_of hn]
  rfl

theorem advance_eq {n : Nat} (hblock : block.length ≤ maxCount)
    (hn : p.position + n ≤ block.length) : advance block n p = some (.ok (), p.pass n) := by
  rw [advance, position_bind, add_of_le (by omega), pure_bind, moveTo_eq hn]
  rfl

variable (hp : p.position ≤ block.length)

include hp

theorem remaining_eq :
    remaining block p = some (.ok (block.length - p.position), p) := by
  rw [remaining, position_bind, sub_of_le hp]
  rfl

theorem unread_eq : unread block p = some (.ok (block.drop p.position), p) := by
  rw [unread, position_bind, slice_to_end hp]
  rfl

theorem rewind_eq {n : Nat} (hn : n ≤ p.position) :
    rewind block n p = some (.ok (), { p with position := n }) := by
  rw [rewind, position_bind, assert_of hn, pure_bind, moveTo_eq (Nat.le_trans hn hp)]

end

end Checked
end Folio.Codec
