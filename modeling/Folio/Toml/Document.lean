import Folio.Toml.Lexeme
import Folio.Toml.Node

/-!
TOML documents: values, lines, and the tree that the lines of a document build up.
-/
namespace Folio.Toml

open Scan Lexeme

/-! ### Values -/

/-- Items with commas between them, each item with the gaps around it; a comma may follow the
last one. -/
def items (item : Scan Node) : Scan (List Node) := do
  let one : Scan Node := do
    gaps
    let node ← item
    gaps
    return node
  match ← optional one with
  | none => return []
  | some first =>
    let others ← many (do expect ','; one)
    let _ ← optional (expect ',')
    return first :: others

/-- An array. -/
def array (item : Scan Node) : Scan Node := do
  expect '['
  let nodes ← items item
  gaps
  expect ']'
  return .array nodes

/-- A key, an equals sign and a value. -/
def pair (value : Scan Node) : Scan ((List String × String) × Node) := do
  let k ← key
  expect '='
  blanks
  return (k, ← value)

/-- A table in braces, on one line but for its values. -/
def inlineTable (value : Scan Node) : Scan Node := do
  expect '{'
  let one : Scan ((List String × String) × Node) := do
    let p ← pair value
    blanks
    return p
  blanks
  let pairs ← match ← optional one with
    | none => pure []
    | some first => pure (first :: (← many (do expect ','; one)))
  expect '}'
  match pairs.foldlM (fun (ms : Members) ((path, k), node) => ms.add path k node) [] with
  | some members => return .table .inline members
  | none => failure

/-- A value that holds no other values. -/
def simpleValue : Scan Node :=
  (do return .text (← text)) <|> (do return .boolean (← Lexeme.boolean))
    <|> (do moment; return .moment) <|> (do return .float (← Lexeme.float))
    <|> (do return .integer (← Lexeme.integer))

/-- A value, whose arrays and tables may be nested less than `depth` deep. -/
def value : (depth : Nat) → Scan Node
  | 0 => failure
  | 1 => simpleValue
  | depth + 2 =>
    array (value (depth + 1)) <|> inlineTable (value (depth + 1)) <|> simpleValue

/-! ### Lines -/

inductive Line where
  | blank
  /-- A header in brackets. -/
  | header (path : List String) (key : String)
  /-- A header in double brackets. -/
  | item (path : List String) (key : String)
  | pair (path : List String) (key : String) (node : Node)

def itemLine : Scan Line := do
  literal ['[', '[']
  let (path, k) ← key
  literal [']', ']']
  lineEnd
  return .item path k

def headerLine : Scan Line := do
  expect '['
  let (path, k) ← key
  expect ']'
  lineEnd
  return .header path k

def pairLine : Scan Line := do
  let ((path, k), node) ← Toml.pair (value maxDepth)
  lineEnd
  return .pair path k node

/-- One line with its line break. -/
def line : Scan Line := do
  blanks
  let cs ← rest
  match cs with
  | [] => failure
  | '[' :: '[' :: _ => itemLine
  | '[' :: _ => headerLine
  | '#' :: _ => do
    comment
    newline <|> endOfText
    return .blank
  | '\n' :: _ | '\r' :: _ => do
    newline
    return .blank
  | _ => pairLine

/-! ### The tree -/

/-- A document under construction: the tree so far, without the table that is open now. -/
structure Draft where
  root : Members := []
  /-- Where the open table belongs, `none` for the root itself. -/
  place : Option (List String × String) := none
  /-- The open table is an item of an array. -/
  isItem : Bool := false
  /-- The members of the open table. -/
  current : Members := []

namespace Draft

/-- Puts the open table in its place. -/
def close (d : Draft) : Option Members :=
  match d.place with
  | none => some d.current
  | some (path, key) =>
    let node := Node.table .header d.current
    d.root.below path fun parent =>
      if d.isItem then
        match parent.lookup key with
        | some (.tables nodes) => some (parent.set key (.tables (nodes ++ [node])))
        | _ => none
      else parent.addNew key node

/-- Opens a table by its header: a new one, or one that was only implied so far. -/
def openTable (root : Members) (path : List String) (key : String) : Option Draft := do
  let root ← root.below path some
  let parent ← root.at? path
  let current ← match parent.lookup key with
    | none => some []
    | some (.table .implied members) => some members
    | some _ => none
  let root ← root.below path fun parent => some (parent.filter (·.1 != key))
  return { root, place := some (path, key), current }

/-- Opens a new item of an array of tables. -/
def openItem (root : Members) (path : List String) (key : String) : Option Draft := do
  let root ← root.below path fun parent =>
    match parent.lookup key with
    | none => some (parent.set key (.tables []))
    | some (.tables _) => some parent
    | some _ => none
  return { root, place := some (path, key), isItem := true, current := [] }

/-- Follows one line. -/
def follow (d : Draft) : Line → Option Draft
  | .blank => some d
  | .header path key => do openTable (← d.close) path key
  | .item path key => do openItem (← d.close) path key
  | .pair path key node => do return { d with current := ← d.current.add path key node }

end Draft

/-- The root table of a document; `none` if the text is no TOML document. A byte order mark at the
beginning is passed over. -/
def parse? (text : String) : Option Members := do
  let chars := match text.toList with
    | '\uFEFF' :: cs => cs
    | cs => cs
  let (lines, left) ← many line (.ofList chars)
  if left.chars.all isBlank then
    let draft ← lines.foldlM Draft.follow {}
    draft.close
  else none

end Folio.Toml
