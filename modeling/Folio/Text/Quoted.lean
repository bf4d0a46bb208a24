import Folio.Text.Invisible

/-!
Texts in quotes, as they appear in the description of a value. Quotes, backslashes, the common
control characters and every character without a visible form are escaped, so the quoted text can
be read off a line.
-/
namespace Folio.Text

/-- The digits of a code point in base 16. -/
def codePoint (c : Char) : String := String.ofList (Nat.toDigits 16 c.toNat)

/-- One character inside quotes. -/
def escape (c : Char) : String :=
  match c with
  | '\x00' => "\\0"
  | '\t' => "\\t"
  | '\r' => "\\r"
  | '\n' => "\\n"
  | '"' => "\\\""
  | '\\' => "\\\\"
  | _ => if isInvisible c then "\\u\x7b" ++ codePoint c ++ "\x7d" else c.toString

/-- A text in quotes. -/
def quoted (text : String) : String :=
  "\"" ++ String.join (text.toList.map escape) ++ "\""

end Folio.Text
