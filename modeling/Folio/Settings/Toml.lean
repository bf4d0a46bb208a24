import Folio.Settings.Basic
import Folio.Text.Utf8
import Folio.Toml.Document

/-!
Settings written in TOML. What is not mentioned keeps its default, what is not known is passed over.
A group of settings is a table; an array that lists its values in order, and a date, which has none
of them, are taken as well.
-/
namespace Folio.Settings

open Toml (Node)

/-- A setting of a group `σ`: its key and how a value changes the group. -/
abbrev Field (σ : Type) := String × (Node → σ → Option σ)

/-- A count: a whole number that is not negative. -/
def count? : Node → Option Nat
  | .integer i => if 0 ≤ i then some i.toNat else none
  | _ => none

/-- A whole number as a float. -/
def floatOfInt (i : Int) : Float :=
  let magnitude := Float.ofScientific i.natAbs false 0
  if i < 0 then -magnitude else magnitude

def float? : Node → Option Float
  | .float x => some x
  | .integer i => some (floatOfInt i)
  | _ => none

def text? : Node → Option String
  | .text s => some s
  | _ => none

/-- A group of settings, starting from its defaults. -/
def group? {σ : Type} (fields : List (Field σ)) (defaults : σ) : Node → Option σ
  | .table _ members =>
    members.foldlM (fun s (key, node) =>
      match fields.lookup key with
      | some set => set node s
      | none => some s) defaults
  | .array items | .tables items =>
    (fields.zip items).foldlM (fun s (field, node) => field.2 node s) defaults
  | .moment => some defaults
  | _ => none

def cacheFields : List (Field Cache.Settings) :=
  [("capacity", fun n s => (count? n).map ({ s with capacity := · })),
    ("max_capacity", fun n s => (count? n).map ({ s with maxCapacity := · })),
    ("growth_factor", fun n s => (float? n).map ({ s with growthFactor := · })),
    ("growth_threshold", fun n s => (float? n).map ({ s with growthThreshold := · })),
    ("eviction_attempts", fun n s => (count? n).map ({ s with evictionAttempts := · }))]

def budgetFields : List (Field Nat) := [("max_total_capacity", fun n _ => count? n)]

def lockFields : List (Field (Option Nat)) :=
  [("acquire_timeout_ms", fun n _ => (count? n).map some)]

def fields : List (Field Settings) :=
  [("collection_cache", fun n s =>
      (group? cacheFields {} n).map ({ s with cache := · })),
    ("budget", fun n s => (group? budgetFields 16384 n).map ({ s with budget := · })),
    ("lock", fun n s => (group? lockFields none n).map ({ s with lockMillis := · })),
    ("log_level", fun n s => (text? n).map ({ s with logLevel := · }))]

/-- The settings that a text describes, if they pass the checks. -/
def ofToml (text : String) : Except Error Settings := do
  let some members := Toml.parse? text | throw .malformed
  let some s := group? fields {} (.table .header members) | throw .malformed
  s.validate
  return s

/-- The settings in a file with these bytes; `none` if there is no such file. -/
def load (file : Option Bytes) : Except Error Settings := do
  let some block := file | throw .unreadable
  match Utf8.decode block with
  | .ok text => ofToml text
  | .error _ => throw .unreadable

end Folio.Settings
