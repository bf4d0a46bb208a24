import Folio.Toml.Scan

/-!
The lexemes of TOML: blanks and comments, keys, texts, numbers, dates and times.
-/
namespace Folio.Toml.Lexeme

open Scan

/-! ### Blanks -/

def isBlank (c : Char) : Bool := c == ' ' || c == '\t'

def isNonAscii (c : Char) : Bool := 0x80 ≤ c.toNat

/-- The characters that may stand in a comment. -/
def isCommentChar (c : Char) : Bool := c == '\t' || (' ' ≤ c && c ≤ '~') || isNonAscii c

def blanks : Scan Unit := do
  let _ ← Scan.takeWhile isBlank

def newline : Scan Unit := literal ['\n'] <|> literal ['\r', '\n']

def comment : Scan Unit := do
  expect '#'
  let _ ← Scan.takeWhile isCommentChar

/-- The end of a line: blanks, perhaps a comment, and a line break or the end of the text. -/
def lineEnd : Scan Unit := do
  blanks
  let _ ← optional comment
  newline <|> endOfText

/-- Blanks, line breaks and comments, as they may stand between the items of an array. -/
def gaps : Scan Unit := do
  let gap : Scan Unit := do
    blanks
    let _ ← optional comment
    newline
  let _ ← many gap
  blanks

/-! ### Texts -/

def isDigit (c : Char) : Bool := '0' ≤ c && c ≤ '9'

def isHexDigit (c : Char) : Bool := isDigit c || ('a' ≤ c && c ≤ 'f') || ('A' ≤ c && c ≤ 'F')

/-- The value of a digit in a base up to 16. -/
def digitValue (c : Char) : Nat :=
  if isDigit c then c.toNat - '0'.toNat
  else if 'a' ≤ c then c.toNat - 'a'.toNat + 10
  else c.toNat - 'A'.toNat + 10

/-- The number that digits spell in a base. -/
def ofDigits (base : Nat) (digits : List Char) : Nat :=
  digits.foldl (fun n c => base * n + digitValue c) 0

/-- Exactly `n` characters that satisfy a test. -/
def exactly (n : Nat) (test : Char → Bool) : Scan (List Char) := do
  match n with
  | 0 => return []
  | n + 1 =>
    let c ← char test
    return c :: (← exactly n test)

/-- A code point of `n` hexadecimal digits. -/
def scalar (n : Nat) : Scan Char := do
  let code := ofDigits 16 (← exactly n isHexDigit)
  if code.isValidChar then return Char.ofNat code else failure

/-- A character after a backslash. -/
def escaped : Scan Char := do
  match ← char fun _ => true with
  | 'b' => return '\x08'
  | 't' => return '\t'
  | 'n' => return '\n'
  | 'f' => return '\x0c'
  | 'r' => return '\r'
  | '"' => return '"'
  | '\\' => return '\\'
  | 'u' => scalar 4
  | 'U' => scalar 8
  | _ => failure

/-- The characters that stand for themselves in quotes, the quote and the backslash apart. -/
def isTextChar (c : Char) : Bool := isCommentChar c

/-- One character of a text in double quotes. -/
def basicChar : Scan Char :=
  (char fun c => isTextChar c && c != '"' && c != '\\') <|> (do expect '\\'; escaped)

/-- A text in double quotes on one line. -/
def basicText : Scan String := do
  expect '"'
  let cs ← many basicChar
  expect '"'
  return String.ofList cs

/-- A text in single quotes on one line, where nothing is escaped. -/
def literalText : Scan String := do
  expect '\''
  let cs ← Scan.takeWhile fun c => isTextChar c && c != '\''
  expect '\''
  return String.ofList cs

/-- Up to two quotes inside a text that ends with three of them. -/
def fewQuotes (quote : Char) : Scan (List Char) := do
  let run ← takeWhile1 (· == quote)
  if run.length < 3 then return run else failure

/-- The three quotes at the end of a text, with up to two that belong to the text before them. -/
def closingQuotes (quote : Char) : Scan (List Char) := do
  let run ← takeWhile1 (· == quote)
  if 3 ≤ run.length ∧ run.length ≤ 5 then return run.drop 3 else failure

/-- A line break inside a text reads as a single character. -/
def lineBreak : Scan (List Char) := do
  newline
  return ['\n']

/-- A backslash at the end of a line takes the line break and all blanks and line breaks after it
with it. -/
def continuation : Scan (List Char) := do
  expect '\\'
  blanks
  newline
  let _ ← many (newline <|> (do let _ ← char isBlank))
  return []

/-- A text between three quotes on either side, made of pieces; a line break right after the first
three is not part of it. -/
def longText (quote : Char) (piece : Scan (List Char)) : Scan String := do
  literal [quote, quote, quote]
  let _ ← optional newline
  let pieces ← many (fewQuotes quote <|> lineBreak <|> piece)
  let last ← closingQuotes quote
  return String.ofList (pieces.flatten ++ last)

def longBasicText : Scan String :=
  longText '"' (continuation <|> (do return [← basicChar]))

def longLiteralText : Scan String :=
  longText '\'' (do return [← char fun c => isTextChar c && c != '\''])

def text : Scan String :=
  longBasicText <|> basicText <|> longLiteralText <|> literalText

/-! ### Keys -/

def isKeyChar (c : Char) : Bool :=
  isDigit c || ('a' ≤ c && c ≤ 'z') || ('A' ≤ c && c ≤ 'Z') || c == '-' || c == '_'

def simpleKey : Scan String :=
  (do return String.ofList (← takeWhile1 isKeyChar)) <|> basicText <|> literalText

/-- A key may have fewer parts than this. -/
def maxDepth : Nat := 80

/-- A key of parts with dots between them, as the path to the last part and that part. -/
def key : Scan (List String × String) := do
  let part : Scan String := do
    blanks
    let k ← simpleKey
    blanks
    return k
  let first ← part
  let others ← many (do expect '.'; part)
  let parts := first :: others
  if parts.length < maxDepth then return (parts.dropLast, parts.getLast?.getD first) else failure

/-! ### Numbers -/

/-- Digits with single underscores between them, without the underscores. -/
def digits (test : Char → Bool) : Scan (List Char) := do
  let first ← char test
  let others ← many (do let _ ← optional (expect '_'); char test)
  return first :: others

/-- The digits of a whole decimal number, which has no leading zeros. -/
def wholeDigits : Scan (List Char) := do
  match ← rest with
  | '0' :: _ =>
    expect '0'
    return ['0']
  | _ => digits isDigit

/-- A sign; tells whether it is a minus. -/
def sign : Scan Bool := do
  match ← optional (char fun c => c == '+' || c == '-') with
  | some c => return c == '-'
  | none => return false

/-- A whole number in the range of 64 bits. -/
def inRange (i : Int) : Scan Int :=
  if -9223372036854775808 ≤ i ∧ i ≤ 9223372036854775807 then return i else failure

def integer : Scan Int := do
  match ← rest with
  | '0' :: 'x' :: _ =>
    literal ['0', 'x']
    inRange (ofDigits 16 (← digits isHexDigit))
  | '0' :: 'o' :: _ =>
    literal ['0', 'o']
    inRange (ofDigits 8 (← digits fun c => '0' ≤ c && c ≤ '7'))
  | '0' :: 'b' :: _ =>
    literal ['0', 'b']
    inRange (ofDigits 2 (← digits fun c => c == '0' || c == '1'))
  | _ =>
    let negative ← sign
    let n : Int := ofDigits 10 (← wholeDigits)
    inRange (if negative then -n else n)

/-- The double nearest to `digits * 10 ^ exponent`. -/
def nearest (digits : Nat) (exponent : Int) : Float :=
  let leading : Int := (Nat.repr digits).length + exponent
  if digits = 0 ∨ leading < -400 then 0.0
  else if 400 < leading then 1.0 / 0.0
  else Float.ofScientific digits (exponent < 0) exponent.natAbs

def exponent : Scan Int := do
  let _ ← char fun c => c == 'e' || c == 'E'
  let negative ← sign
  let n : Int := ofDigits 10 (← digits isDigit)
  return if negative then -n else n

/-- A decimal number with a fraction, an exponent or both. It must not exceed all doubles. -/
def decimal : Scan Float := do
  let negative ← sign
  let whole ← wholeDigits
  let fraction ← optional (do expect '.'; digits isDigit)
  let power ← match fraction with
    | none => exponent
    | some _ => pure ((← optional exponent).getD 0)
  let fraction := fraction.getD []
  let x := nearest (ofDigits 10 (whole ++ fraction)) (power - fraction.length)
  if negative then return -x
  else if x.isInf then failure
  else return x

/-- Infinity, or what is not a number. -/
def special : Scan Float := do
  let negative ← sign
  let x ← (do literal ['i', 'n', 'f']; pure (1.0 / 0.0 : Float))
    <|> (do literal ['n', 'a', 'n']; pure (0.0 / 0.0 : Float))
  return if negative then -x else x

def float : Scan Float := decimal <|> special

def boolean : Scan Bool :=
  (do literal "true".toList; return true) <|> (do literal "false".toList; return false)

/-! ### Dates and times -/

/-- A number of `n` digits within bounds. -/
def bounded (n low high : Nat) : Scan Nat := do
  let v := ofDigits 10 (← exactly n isDigit)
  if low ≤ v ∧ v ≤ high then return v else failure

def isLeapYear (year : Nat) : Bool := year % 4 == 0 && (year % 100 != 0 || year % 400 == 0)

def daysInMonth (year month : Nat) : Nat :=
  if month = 2 then if isLeapYear year then 29 else 28
  else if month ∈ [4, 6, 9, 11] then 30
  else 31

def date : Scan Unit := do
  let year ← bounded 4 0 9999
  expect '-'
  let month ← bounded 2 1 12
  expect '-'
  let _ ← bounded 2 1 (daysInMonth year month)

def time : Scan Unit := do
  let _ ← bounded 2 0 23
  expect ':'
  let _ ← bounded 2 0 59
  expect ':'
  let _ ← bounded 2 0 60
  let _ ← optional (do expect '.'; takeWhile1 isDigit)

def offset : Scan Unit :=
  (do let _ ← char fun c => c == 'Z' || c == 'z') <|> (do
    let _ ← char fun c => c == '+' || c == '-'
    let _ ← bounded 2 0 23
    expect ':'
    let _ ← bounded 2 0 59)

/-- A date, a time, or a date with a time and perhaps an offset. -/
def moment : Scan Unit :=
  (do
    date
    let _ ← optional do
      let _ ← char fun c => c == 'T' || c == 't' || c == ' '
      time
      optional offset) <|> time

end Folio.Toml.Lexeme
