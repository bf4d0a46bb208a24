/-!
TOML documents as trees. A table remembers how it came about, because that decides where it may
still be added to: dotted keys extend only tables that were made by dotted keys or implied by a
longer header, and no header opens the same table twice.
-/
namespace Folio.Toml

/-- How a table came about. -/
inductive Form where
  /-- Opened by a header of its own, or the root. -/
  | header
  /-- Implied by a longer header. -/
  | implied
  /-- Made by a dotted key. -/
  | dotted
  /-- Written in braces, and complete with them. -/
  | inline
deriving DecidableEq, Repr

inductive Node where
  | text (s : String)
  | integer (i : Int)
  | float (x : Float)
  | boolean (b : Bool)
  /-- A date, a time or both. -/
  | moment
  | array (items : List Node)
  | table (form : Form) (members : List (String × Node))
  /-- The tables opened by a header in double brackets; each is an array item. -/
  | tables (items : List Node)

/-- The members of a table, each key once. -/
abbrev Members := List (String × Node)

namespace Members

/-- Replaces the member of a key, or adds it at the end. -/
def set (members : Members) (key : String) (node : Node) : Members :=
  if members.any (·.1 == key) then members.map fun (k, n) => (k, if k == key then node else n)
  else members ++ [(key, node)]

/-- Adds a key that is not there yet. -/
def addNew (members : Members) (key : String) (node : Node) : Option Members :=
  if members.any (·.1 == key) then none else some (members ++ [(key, node)])

/-- The last table of an array of tables, with the tables before it. -/
def lastTable? (items : List Node) : Option (List Node × Form × Members) :=
  match items.getLast? with
  | some (.table form members) => some (items.dropLast, form, members)
  | _ => none

/-- Adds a key below a path of dotted keys; `form` is the form of the table at hand. -/
def addDotted (form : Form) (members : Members) : (path : List String) → (key : String) →
    Node → Option Members
  | [], key, node => if form = .dotted then members.addNew key node else none
  | step :: path, key, node =>
    match members.lookup step with
    | none => do
      let inner ← addDotted .dotted [] path key node
      return members.set step (.table .dotted inner)
    | some (.table .dotted inner) => do
      return members.set step (.table .dotted (← addDotted .dotted inner path key node))
    | some (.table .implied inner) => do
      return members.set step (.table .implied (← addDotted .implied inner path key node))
    | some (.tables items) => do
      let (before, lastForm, inner) ← lastTable? items
      let inner ← addDotted lastForm inner path key node
      return members.set step (.tables (before ++ [.table lastForm inner]))
    | some _ => none

/-- Adds a key with its path, which is empty for a key without dots. -/
def add (members : Members) (path : List String) (key : String) (node : Node) : Option Members :=
  if path.isEmpty then members.addNew key node else addDotted .header members path key node

/-- Changes the table that a header's path leads to, which implies the tables on the way. -/
def below (members : Members) : (path : List String) → (Members → Option Members) → Option Members
  | [], change => change members
  | step :: path, change =>
    match members.lookup step with
    | none => do
      return members.set step (.table .implied (← below [] path change))
    | some (.table .inline _) => none
    | some (.table form inner) => do
      return members.set step (.table form (← below inner path change))
    | some (.tables items) => do
      let (before, form, inner) ← lastTable? items
      return members.set step (.tables (before ++ [.table form (← below inner path change)]))
    | some _ => none

/-- The members of the table that a header's path leads to. -/
def at? (members : Members) : (path : List String) → Option Members
  | [] => some members
  | step :: path =>
    match members.lookup step with
    | some (.table _ inner) => at? inner path
    | some (.tables items) => do
      let (_, _, inner) ← lastTable? items
      at? inner path
    | _ => none

end Members
end Folio.Toml
