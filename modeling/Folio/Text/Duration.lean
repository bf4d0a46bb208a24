/-!
Lengths of time and their text: the largest of the units s, ms, µs and ns that leaves a whole part,
with just as many decimals as the exact length needs.
-/
namespace Folio

/-- A length of time. -/
structure Duration where
  nanos : Nat
deriving DecidableEq, Repr

namespace Duration

def ofMillis (n : Nat) : Duration := ⟨n * 1000000⟩

/-- The whole milliseconds of a length of time. -/
def millis (d : Duration) : Nat := d.nanos / 1000000

/-- The digits of `n / 10 ^ places` after the point, without zeros at the end. -/
def fraction (places n : Nat) : String :=
  let digits := (List.range places).map fun i =>
    Char.ofNat (48 + n / Nat.pow 10 (places - 1 - i) % 10)
  String.ofList (digits.reverse.dropWhile (· == '0')).reverse

/-- `n / 10 ^ places` in a unit. -/
def inUnit (places n : Nat) (unit : String) : String :=
  let decimals := fraction places (n % Nat.pow 10 places)
  let whole := toString (n / Nat.pow 10 places)
  if decimals.isEmpty then whole ++ unit else whole ++ "." ++ decimals ++ unit

def describe (d : Duration) : String :=
  if 1000000000 ≤ d.nanos then inUnit 9 d.nanos "s"
  else if 1000000 ≤ d.nanos then inUnit 6 d.nanos "ms"
  else if 1000 ≤ d.nanos then inUnit 3 d.nanos "µs"
  else inUnit 0 d.nanos "ns"

end Duration
end Folio
