import Folio.Codec.Span

/-!
The single values of the format, each with its kind: how a value is written, read back and copied.
-/
namespace Folio.Codec

/-- The kinds of single values. -/
inductive Kind where
  | byte | u16 | u32 | u64 | i16 | i32 | i64 | fixedU32 | fixedU64 | block | text
deriving DecidableEq, Repr

/-- A value together with its kind. -/
inductive Value where
  | byte (b : UInt8)
  | u16 (n : UInt16)
  | u32 (n : UInt32)
  | u64 (n : UInt64)
  | i16 (i : Int16)
  | i32 (i : Int32)
  | i64 (i : Int64)
  | fixedU32 (n : UInt32)
  | fixedU64 (n : UInt64)
  | block (bytes : Bytes)
  | text (text : String)
deriving DecidableEq

namespace Value

def kind : Value → Kind
  | byte _ => .byte
  | u16 _ => .u16
  | u32 _ => .u32
  | u64 _ => .u64
  | i16 _ => .i16
  | i32 _ => .i32
  | i64 _ => .i64
  | fixedU32 _ => .fixedU32
  | fixedU64 _ => .fixedU64
  | block _ => .block
  | text _ => .text

/-- Numbers are written in their shortest form, fixed ones most significant byte first, blocks and
texts after their length. -/
def encode : Value → Bytes
  | byte b => [b]
  | u16 n => Varint.encode n.toNat
  | u32 n => Varint.encode n.toNat
  | u64 n => Varint.encode n.toNat
  | i16 i => Varint.encode (Varint.zigzag i.toInt)
  | i32 i => Varint.encode (Varint.zigzag i.toInt)
  | i64 i => Varint.encode (Varint.zigzag i.toInt)
  | fixedU32 n => toBigEndian 4 n.toNat
  | fixedU64 n => toBigEndian 8 n.toNat
  | block bytes => encodeBlock bytes
  | text s => encodeText s

end Value

namespace Kind

/-- Reads a value of this kind. -/
def read : Kind → Decoder Value
  | byte => return .byte (← readByte)
  | u16 => return .u16 (← readU16)
  | u32 => return .u32 (← readU32)
  | u64 => return .u64 (← readU64)
  | i16 => return .i16 (← readI16)
  | i32 => return .i32 (← readI32)
  | i64 => return .i64 (← readI64)
  | fixedU32 => return .fixedU32 (← readFixedU32)
  | fixedU64 => return .fixedU64 (← readFixedU64)
  | block => return .block (← readBlock)
  | text => return .text (← readText)

/-- The span of one value of this kind. -/
def span : Kind → Span
  | byte => .raw 1
  | u16 | u32 | u64 | i16 | i32 | i64 => .varints 1
  | fixedU32 => .raw 4
  | fixedU64 => .raw 8
  | block | text => .blocks 1

/-- Copies a value of this kind as it is written. -/
def copy (k : Kind) : Copier Unit := copySpan k.span

end Kind
end Folio.Codec
