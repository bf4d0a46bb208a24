/-!
Scanning text from the left. A scanner takes what it recognises off the front or fails; nothing is
taken by a scanner that failed and has an alternative. The text that is left is kept with its
length, so a repetition sees at once whether it gets on.
-/
namespace Folio.Toml

/-- The text that is left, with its length. -/
structure Unscanned where
  chars : List Char
  length : Nat
  length_eq : length = chars.length

namespace Unscanned

def ofList (chars : List Char) : Unscanned := ⟨chars, chars.length, rfl⟩

/-- The next character and what is left after it. -/
def next? : Unscanned → Option (Char × Unscanned)
  | ⟨[], _, _⟩ => none
  | ⟨c :: cs, n, h⟩ => some (c, ⟨cs, n - 1, by simp [h]⟩)

/-- The characters in front that satisfy a test, and what is left after them. -/
def span (test : Char → Bool) (u : Unscanned) : List Char × Unscanned :=
  let taken := u.chars.takeWhile test
  (taken, ⟨u.chars.dropWhile test, u.length - taken.length, by
    have whole : taken ++ u.chars.dropWhile test = u.chars := List.takeWhile_append_dropWhile
    have := congrArg List.length whole
    rw [List.length_append] at this
    have := u.length_eq
    omega⟩)

end Unscanned

/-- A scanner. -/
abbrev Scan := StateT Unscanned Option

namespace Scan

variable {α : Type}

/-- The text that is left. -/
def rest : Scan (List Char) := return (← get).chars

/-- Takes the next character if it satisfies a test. -/
def char (test : Char → Bool) : Scan Char := fun u =>
  match u.next? with
  | some (c, u) => if test c then some (c, u) else none
  | none => none

/-- Takes one given character. -/
def expect (c : Char) : Scan Unit := do
  let _ ← char (· == c)

/-- Takes a given text. -/
def literal : List Char → Scan Unit
  | [] => pure ()
  | c :: cs => do
    expect c
    literal cs

/-- Takes characters as long as they satisfy a test. -/
def takeWhile (test : Char → Bool) : Scan (List Char) := fun u => some (u.span test)

/-- Takes at least one character that satisfies a test. -/
def takeWhile1 (test : Char → Bool) : Scan (List Char) := do
  let first ← char test
  return first :: (← takeWhile test)

/-- Repeats a scanner as long as it recognises something. -/
def many (p : Scan α) : Scan (List α) := fun u =>
  match p u with
  | none => some ([], u)
  | some (a, u') =>
    if u'.length < u.length then
      match many p u' with
      | some (as, u'') => some (a :: as, u'')
      | none => none
    else some ([a], u')
termination_by u => u.length

/-- Takes nothing and succeeds at the end of the text. -/
def endOfText : Scan Unit := fun u => if u.chars.isEmpty then some ((), u) else none

end Scan
end Folio.Toml
