import Folio.Codec.Error

/-!
Numbers in base 128, least significant group first, with the high bit set on every byte but the
last. `encode` writes the shortest form; `extent` finds where a number ends without evaluating it
and `decode` evaluates it exactly, so that a number too large for 64 bits is refused. Signed
numbers go through the zig-zag order 0, -1, 1, -2, ….
-/
namespace Folio.Codec.Varint

/-- The longest number that is read, in bytes. -/
def maxLength : Nat := 10

/-- The first number that does not fit into `width` bits. -/
def bound (width : Nat) : Nat := Nat.pow 2 width

/-- The shortest form of a number. -/
def encode (n : Nat) : Bytes :=
  if n < 128 then [n.toUInt8] else (n % 128 + 128).toUInt8 :: encode (n / 128)
termination_by n
decreasing_by omega

/-- The last byte of a number has its high bit clear. -/
def endsNumber (b : UInt8) : Bool := b < 128

/-- The number of bytes of the number at the head of `bytes`. -/
def extent (bytes : Bytes) : Except Error Nat :=
  if bytes.isEmpty then .error .endOfData
  else
    match (bytes.take maxLength).findIdx? endsNumber with
    | some last => .ok (last + 1)
    | none =>
      if maxLength ≤ bytes.length then .error (.overflow 64)
      else .error (.truncated (bytes.length + 1) bytes.length)

/-- The exact value of a number's bytes. -/
def value : Bytes → Nat
  | [] => 0
  | b :: rest => b.toNat % 128 + 128 * value rest

/-- The value of the number at the head of `bytes`, with its length. -/
def decode (bytes : Bytes) : Except Error (Nat × Nat) := do
  let length ← extent bytes
  let n := value (bytes.take length)
  if n < bound 64 then return (n, length) else throw (.overflow 64)

/-- A signed number's place in the order 0, -1, 1, -2, …. -/
def zigzag (i : Int) : Nat :=
  if 0 ≤ i then 2 * i.toNat else 2 * (-i).toNat - 1

/-- The signed number at place `n` of the order 0, -1, 1, -2, …. -/
def unzigzag (n : Nat) : Int :=
  if n % 2 = 0 then (n / 2 : Nat) else -((n / 2 + 1 : Nat) : Int)

@[simp] theorem unzigzag_zigzag (i : Int) : unzigzag (zigzag i) = i := by
  unfold unzigzag zigzag
  split <;> split <;> omega

@[simp] theorem zigzag_unzigzag (n : Nat) : zigzag (unzigzag n) = n := by
  unfold unzigzag zigzag
  split <;> split <;> omega

end Folio.Codec.Varint
