/-!
# HybridCompile — TOML values

The values of a TOML text. Whole numbers are 64-bit, as the format has them. No setting is a
fraction or a point in time, so numbers with a point and dates stay as they are written.

* `Toml.Value` — the values; `Value.text?`, `integer?`, `boolean?`, `items?` read them.
* `Value.record?` — the values of named fields.
* `Toml.Document` — a text as it is laid out: entries, then sections under headers.
-/

namespace HybridCompile.Toml

/-- A TOML value. -/
inductive Value where
  | text (s : String)
  | integer (n : Int64)
  | float (literal : String)
  | boolean (b : Bool)
  | dateTime (literal : String)
  | array (items : List Value)
  | table (entries : List (String × Value))
  deriving Repr, Inhabited

namespace Value

def text? : Value → Option String
  | .text s => some s
  | _ => none

def integer? : Value → Option Int64
  | .integer n => some n
  | _ => none

def boolean? : Value → Option Bool
  | .boolean b => some b
  | _ => none

def items? : Value → Option (List Value)
  | .array items => some items
  | _ => none

/-- The value of the entry with the given key. -/
def lookup (key : String) : List (String × Value) → Option Value
  | [] => none
  | (k, v) :: rest => if k = key then some v else lookup key rest

/-- The values of the fields `names`, each `none` where it is left out.

A table gives its fields by name, whatever else it holds. An array gives the fields in order, may
stop early, and may go on after the last. A date stands for a table that has none of the fields. -/
def record? (names : List String) : Value → Option (List (Option Value))
  | .table entries => some (names.map fun n => lookup n entries)
  | .array items =>
    some ((items.take names.length).map some ++ List.replicate (names.length - items.length) none)
  | .dateTime _ => some (names.map fun _ => none)
  | _ => none

end Value

/-- A table as a value of its own. -/
abbrev Table := List (String × Value)

/-- What stands over a section of a document. -/
inductive Header where
  /-- The section is a table. -/
  | table (name : String)
  /-- The section is the next element of an array of tables. -/
  | element (name : String)
  deriving DecidableEq, Repr

/-- Entries under a header. -/
structure Section where
  header : Header
  entries : List (String × Value)
  deriving Repr

/-- A text as it is laid out: the entries before the first header, and the sections. -/
structure Document where
  entries : List (String × Value)
  sections : List Section
  deriving Repr

end HybridCompile.Toml
