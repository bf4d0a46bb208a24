/-!
Decimal texts of binary floating-point numbers. A finite number is taken apart into a sign and a
fraction of naturals, and all rounding is done exactly on that fraction: `fixed` rounds to a number
of decimals with ties to even, `shortest` finds the fewest digits that no other number of the
format is nearer to.
-/
namespace Folio.Text

/-- A finite number without its sign, as `significand * 2 ^ exponent`. -/
structure Binary where
  significand : Nat
  exponent : Int
deriving DecidableEq, Repr

namespace Binary

/-- The number as a fraction. -/
def fraction (b : Binary) : Nat × Nat :=
  (b.significand * Nat.pow 2 b.exponent.toNat, Nat.pow 2 (-b.exponent).toNat)

/-- The magnitude of a double, from the 63 bits below the sign. -/
def ofBits (bits : Nat) : Binary :=
  let biased : Nat := bits / Nat.pow 2 52
  let low := bits % Nat.pow 2 52
  if biased = 0 then ⟨low, -1074⟩ else ⟨low + Nat.pow 2 52, (biased : Int) - 1075⟩

/-- The double below this one is half as far away as the one above. -/
def isBinadeStart (b : Binary) : Bool := b.significand == Nat.pow 2 52 && b.exponent > -1074

end Binary

/-- What the bits of a double say: its sign, and its magnitude if it is finite. -/
inductive Reading where
  | nan
  | infinite (negative : Bool)
  | finite (negative : Bool) (magnitude : Binary)

def Reading.ofFloat (x : Float) : Reading :=
  let bits := x.toBits.toNat
  let negative := Nat.pow 2 63 ≤ bits
  let magnitude := bits % Nat.pow 2 63
  if magnitude < 2047 * Nat.pow 2 52 then .finite negative (.ofBits magnitude)
  else if magnitude = 2047 * Nat.pow 2 52 then .infinite negative
  else .nan

/-- The quotient rounded to the nearest natural, a tie to the even one. -/
def roundToEven (num den : Nat) : Nat :=
  let floor := num / den
  let twice := 2 * (num % den)
  if twice < den then floor
  else if den < twice then floor + 1
  else if floor % 2 = 0 then floor
  else floor + 1

/-- `n / 10 ^ places` with exactly that many decimals. -/
def pointed (places n : Nat) : String :=
  let decimals := (Nat.repr (n % Nat.pow 10 places)).toList
  let zeros := List.replicate (places - decimals.length) '0'
  if places = 0 then Nat.repr n
  else Nat.repr (n / Nat.pow 10 places) ++ "." ++ String.ofList (zeros ++ decimals)

def signed (negative : Bool) (text : String) : String := if negative then "-" ++ text else text

/-- The text of a number with a text for each finite magnitude. -/
def render (x : Float) (magnitude : Binary → String) : String :=
  match Reading.ofFloat x with
  | .nan => "NaN"
  | .infinite negative => signed negative "inf"
  | .finite negative b => signed negative (magnitude b)

/-- The number with `places` decimals. -/
def fixed (places : Nat) (x : Float) : String :=
  render x fun b =>
    let (num, den) := b.fraction
    pointed places (roundToEven (num * Nat.pow 10 places) den)

/-- A decimal number `digits * 10 ^ exponent`. -/
structure Scientific where
  digits : Nat
  exponent : Int
deriving DecidableEq, Repr

namespace Scientific

def fraction (s : Scientific) : Nat × Nat :=
  (s.digits * Nat.pow 10 s.exponent.toNat, Nat.pow 10 (-s.exponent).toNat)

/-- The decimal number without an exponent and without zeros at either end. -/
def positional (s : Scientific) : String :=
  if 0 ≤ s.exponent then Nat.repr (s.digits * Nat.pow 10 s.exponent.toNat)
  else pointed (-s.exponent).toNat s.digits

end Scientific

/-- A fraction is at most another one. -/
def fractionLe (a b : Nat × Nat) : Bool := a.1 * b.2 ≤ b.1 * a.2

/-- The reals that round to a double: from halfway down to the double below up to halfway to the one
above, the ends included when the significand is even. -/
def roundsTo (b : Binary) (s : Scientific) : Bool :=
  let x := s.fraction
  let lower : Binary :=
    if b.isBinadeStart then ⟨4 * b.significand - 1, b.exponent - 2⟩
    else ⟨2 * b.significand - 1, b.exponent - 1⟩
  let upper : Binary := ⟨2 * b.significand + 1, b.exponent - 1⟩
  if b.significand % 2 = 0 then fractionLe lower.fraction x && fractionLe x upper.fraction
  else !fractionLe x lower.fraction && !fractionLe upper.fraction x

/-- The two neighbours of a double among the multiples of `10 ^ exponent`. -/
def neighbours (b : Binary) (exponent : Int) : Scientific × Scientific :=
  let (num, den) := b.fraction
  let below := num * Nat.pow 10 (-exponent).toNat / (den * Nat.pow 10 exponent.toNat)
  (⟨below, exponent⟩, ⟨below + 1, exponent⟩)

/-- The upper neighbour is at least as near as the lower one. -/
def upperIsNearer (b : Binary) (exponent : Int) : Bool :=
  let (num, den) := b.fraction
  let scaled := num * Nat.pow 10 (-exponent).toNat
  let unit := den * Nat.pow 10 exponent.toNat
  unit ≤ 2 * (scaled % unit)

/-- A multiple of `10 ^ exponent` that rounds to the double, the nearer one if there are two. -/
def onGrid? (b : Binary) (exponent : Int) : Option Scientific :=
  let (below, above) := neighbours b exponent
  match roundsTo b below && below.digits != 0, roundsTo b above with
  | true, true => some (if upperIsNearer b exponent then above else below)
  | true, false => some below
  | false, true => some above
  | false, false => none

/-- The exponent of the leading decimal digit of a double above zero. -/
def leadingExponent (b : Binary) : Int :=
  let (num, den) := b.fraction
  ((Nat.repr (num * Nat.pow 10 400 / den)).length : Int) - 401

/-- The shortest decimal number that rounds to a double above zero; 17 digits always suffice. The
first grid is one place above the leading digit, for a double just below a power of ten. -/
def shortestScientific (b : Binary) : Scientific :=
  let grids := (List.range 18).map fun (n : Nat) => leadingExponent b + 1 - (n : Int)
  (grids.findSome? (onGrid? b)).getD (neighbours b (leadingExponent b - 16)).1

/-- The number with the fewest digits that tell it from all others, without an exponent. -/
def shortest (x : Float) : String :=
  render x fun b => if b.significand = 0 then "0" else (shortestScientific b).positional

end Folio.Text
