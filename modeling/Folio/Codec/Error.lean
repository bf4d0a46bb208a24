import Folio.Text.Utf8

/-!
What can go wrong while reading encoded data. The end of the data is an error of its own only
where a value could have begun; inside a value it is a truncation, which `Error.within` expresses.
-/
namespace Folio.Codec

inductive Error where
  /-- The data ended where a value would begin. -/
  | endOfData
  /-- A value began and its bytes ran out. -/
  | truncated (needed available : Nat)
  /-- A number is too large for the width it is read at. -/
  | overflow (width : Nat)
  | invalidUtf8 (fault : Utf8.Fault)
  /-- A counted list was closed before all of its items were consumed. -/
  | countMismatch (declared found : Nat)
deriving DecidableEq, Repr

namespace Error

def message : Error → String
  | endOfData => "end of data"
  | truncated needed available =>
    s!"truncated input: needed {needed} more bytes, {available} available"
  | overflow width => s!"varint does not fit in a {width}-bit value"
  | invalidUtf8 fault => "invalid UTF-8 in string: " ++ fault.message
  | countMismatch declared found => s!"declared {declared} values but found {found}"

/-- The error as it appears inside a value that has begun: one more byte was needed where the data
ended. -/
def within : Error → Error
  | endOfData => truncated 1 0
  | other => other

end Error
end Folio.Codec
