import Folio.Codec.Varint

/-!
Reading encoded values. A `Reader` is a position in a block together with the bytes after it and
their number, and a `Decoder` is a reading step that keeps the reader it stopped at also when it
fails. The reads of single values are made by `Decoder.ofUnread` from a function of the unread
bytes, so a failed one leaves the reader where it was. The unread bytes are counted anew only to
report a failure.
-/
namespace Folio.Codec

/-- A position in a block of bytes. -/
structure Reader where
  /-- How many bytes have been passed. -/
  position : Nat
  /-- The bytes that follow. -/
  unread : Bytes
  /-- How many bytes follow. -/
  remaining : Nat := unread.length
  remaining_eq : remaining = unread.length := by rfl
deriving DecidableEq, Repr

namespace Reader

/-- A reader at the start of a block. -/
def ofBytes (block : Bytes) : Reader := { position := 0, unread := block }

def hasRemaining (r : Reader) : Bool := !r.unread.isEmpty

/-- The length of the whole block. -/
def size (r : Reader) : Nat := r.position + r.remaining

/-- Passes over the next `n` bytes. -/
def advance (r : Reader) (n : Nat) : Reader where
  position := r.position + n
  unread := r.unread.drop n
  remaining := r.remaining - n
  remaining_eq := by rw [List.length_drop, r.remaining_eq]

def describe (r : Reader) : String := s!"VariableByteInput(pos={r.position},len={r.size})"

end Reader

/-- A reading step. -/
abbrev Decoder := EStateM Error Reader

/-- Runs a step inside a value that has begun: there the end of the data is a truncation. -/
def within {σ α : Type} (step : EStateM Error σ α) : EStateM Error σ α := fun s =>
  match step s with
  | .ok a s' => .ok a s'
  | .error e s' => .error e.within s'

namespace Decoder

/-- Reads a value that `f` finds at the head of the unread bytes together with its length. -/
def ofUnread {α : Type} (f : Bytes → Except Error (α × Nat)) : Decoder α := fun r =>
  match f r.unread with
  | .ok (a, length) => .ok a (r.advance length)
  | .error e => .error e r

end Decoder

/-! ### Values at the head of a block, with their lengths -/

/-- A block has at least `n` bytes; no more of it is looked at. -/
def hasAtLeast : (n : Nat) → Bytes → Bool
  | 0, _ => true
  | _ + 1, [] => false
  | n + 1, _ :: rest => hasAtLeast n rest

@[simp] theorem hasAtLeast_iff (n : Nat) (bytes : Bytes) :
    hasAtLeast n bytes = true ↔ n ≤ bytes.length := by
  fun_induction hasAtLeast n bytes with
  | case1 => simp
  | case2 => simp
  | case3 n b rest ih => simp [ih]

/-- The first `n` bytes. -/
def takeRaw (n : Nat) (bytes : Bytes) : Except Error (Bytes × Nat) :=
  if hasAtLeast n bytes then .ok (bytes.take n, n) else .error (.truncated n bytes.length)

/-- The first byte. -/
def takeByte : Bytes → Except Error (UInt8 × Nat)
  | [] => .error .endOfData
  | b :: _ => .ok (b, 1)

/-- An unsigned number that is to fit into `width` bits. -/
def takeUnsigned (width : Nat) (bytes : Bytes) : Except Error (Nat × Nat) := do
  let (n, length) ← Varint.decode bytes
  if n < Varint.bound width then return (n, length) else throw (.overflow width)

/-- A signed number that is to fit into `width` bits. -/
def takeSigned (width : Nat) (bytes : Bytes) : Except Error (Int × Nat) := do
  let (n, length) ← Varint.decode bytes
  let i := Varint.unzigzag n
  let half : Int := Varint.bound (width - 1)
  if -half ≤ i ∧ i < half then return (i, length)
  else throw (.overflow width)

/-- The number that a block spells in base 256, most significant byte first. -/
def bigEndian (block : Bytes) : Nat := block.foldl (fun n b => 256 * n + b.toNat) 0

/-- The `count` bytes of a number below `256 ^ count`, most significant first. -/
def toBigEndian : (count n : Nat) → Bytes
  | 0, _ => []
  | count + 1, n => toBigEndian count (n / 256) ++ [n.toUInt8]

/-- A number in exactly `count` bytes. -/
def takeFixed (count : Nat) (bytes : Bytes) : Except Error (Nat × Nat) :=
  if bytes.isEmpty then .error .endOfData
  else do
    let (block, length) ← takeRaw count bytes
    return (bigEndian block, length)

/-- A block preceded by its length. -/
def takeBlock (bytes : Bytes) : Except Error (Bytes × Nat) := do
  let (size, lead) ← Varint.decode bytes
  let (block, length) ← takeRaw size (bytes.drop lead)
  return (block, lead + length)

/-- A text preceded by the length of its encoding. -/
def takeText (bytes : Bytes) : Except Error (String × Nat) := do
  let (block, length) ← takeBlock bytes
  match Utf8.decode block with
  | .ok text => return (text, length)
  | .error fault => throw (.invalidUtf8 fault)

/-! ### Reads -/

def readByte : Decoder UInt8 := .ofUnread takeByte

/-- Reads an unsigned number of at most `width` bits. -/
def readUnsigned (width : Nat) : Decoder Nat := .ofUnread (takeUnsigned width)

def readU16 : Decoder UInt16 := return (← readUnsigned 16).toUInt16

def readU32 : Decoder UInt32 := return (← readUnsigned 32).toUInt32

def readU64 : Decoder UInt64 := return (← readUnsigned 64).toUInt64

/-- Reads a signed number of at most `width` bits. -/
def readSigned (width : Nat) : Decoder Int := .ofUnread (takeSigned width)

def readI16 : Decoder Int16 := return (← readSigned 16).toInt16

def readI32 : Decoder Int32 := return (← readSigned 32).toInt32

def readI64 : Decoder Int64 := return (← readSigned 64).toInt64

def readFixedU32 : Decoder UInt32 := return (← Decoder.ofUnread (takeFixed 4)).toUInt32

def readFixedU64 : Decoder UInt64 := return (← Decoder.ofUnread (takeFixed 8)).toUInt64

/-- Reads a block preceded by its length. -/
def readBlock : Decoder Bytes := .ofUnread takeBlock

/-- Reads a text preceded by the length of its encoding. -/
def readText : Decoder String := .ofUnread takeText

/-! ### Writing -/

/-- A block preceded by its length. -/
def encodeBlock (block : Bytes) : Bytes := Varint.encode block.length ++ block

/-- A text preceded by the length of its encoding. -/
def encodeText (text : String) : Bytes := encodeBlock (Utf8.encode text)

end Folio.Codec
