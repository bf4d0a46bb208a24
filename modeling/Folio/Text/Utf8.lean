/-!
UTF-8 text in bytes. `Utf8.decode` accepts exactly the encodings of texts; of any other block it
reports where the first malformed sequence begins and how many of its bytes could still have
begun a character, or that the block ends inside a character.
-/
namespace Folio

/-- A block of bytes. -/
abbrev Bytes := List UInt8

namespace Utf8

/-- The first place where a block stops being UTF-8. `extent` is the number of bytes of the bad
sequence that are a proper start of some character (at least one is counted), and `none` when the
block ends before the sequence could be told good or bad. -/
structure Fault where
  index : Nat
  extent : Option Nat
deriving DecidableEq, Repr

def Fault.message (fault : Fault) : String :=
  match fault.extent with
  | some n => s!"invalid utf-8 sequence of {n} bytes from index {fault.index}"
  | none => s!"incomplete utf-8 byte sequence from index {fault.index}"

/-- A byte of the form `10xxxxxx`. -/
def isContinuation (b : UInt8) : Bool := 0x80 ≤ b && b ≤ 0xBF

/-- The bytes that may follow `lead`: the first continuation byte is narrowed after four lead
bytes, which rules out overlong forms, surrogates and values past the last code point. -/
def isSecond (lead b : UInt8) : Bool :=
  if lead == 0xE0 then 0xA0 ≤ b && b ≤ 0xBF
  else if lead == 0xED then 0x80 ≤ b && b ≤ 0x9F
  else if lead == 0xF0 then 0x90 ≤ b && b ≤ 0xBF
  else if lead == 0xF4 then 0x80 ≤ b && b ≤ 0x8F
  else isContinuation b

/-- How many bytes follow a lead byte, `none` for a byte that begins no character. -/
def followers (lead : UInt8) : Option Nat :=
  if lead < 0x80 then some 0
  else if lead < 0xC2 then none
  else if lead < 0xE0 then some 1
  else if lead < 0xF0 then some 2
  else if lead < 0xF5 then some 3
  else none

/-- What the bytes after a lead byte make of the sequence. -/
inductive Sequence where
  /-- A character of `length` bytes, and what follows it. -/
  | complete (length : Nat) (rest : Bytes)
  /-- The first `extent` bytes could still have begun a character. -/
  | broken (extent : Nat)
  /-- The block ends inside the sequence. -/
  | cutShort

/-- Reads the continuation bytes: `need` more are wanted and `seen` bytes have been accepted. -/
def continuations : (need seen : Nat) → Bytes → Sequence
  | 0, seen, rest => .complete seen rest
  | _ + 1, _, [] => .cutShort
  | need + 1, seen, b :: rest =>
    if isContinuation b then continuations need (seen + 1) rest else .broken seen

/-- Reads one character's bytes after its lead byte. -/
def sequenceAfter (lead : UInt8) (rest : Bytes) : Sequence :=
  match followers lead with
  | none => .broken 1
  | some 0 => .complete 1 rest
  | some (need + 1) =>
    match rest with
    | [] => .cutShort
    | b :: more => if isSecond lead b then continuations need 2 more else .broken 1

/-- The first fault at or after `index`, where `fuel` bounds the number of characters; a block
without a fault counts as ending inside a character at its end. -/
def faultFrom : (fuel index : Nat) → Bytes → Fault
  | 0, index, _ => ⟨index, none⟩
  | _ + 1, index, [] => ⟨index, none⟩
  | fuel + 1, index, lead :: rest =>
    match sequenceAfter lead rest with
    | .complete length more => faultFrom fuel (index + length) more
    | .broken extent => ⟨index, some extent⟩
    | .cutShort => ⟨index, none⟩

/-- The first fault of a block that is not UTF-8. -/
def firstFault (block : Bytes) : Fault := faultFrom (block.length + 1) 0 block

/-- The bytes of a text. -/
def encode (text : String) : Bytes := text.toUTF8.data.toList

/-- The text whose bytes these are. -/
def decode (block : Bytes) : Except Fault String :=
  match String.fromUTF8? ⟨block.toArray⟩ with
  | some text => .ok text
  | none => .error (firstFault block)

end Utf8
end Folio
