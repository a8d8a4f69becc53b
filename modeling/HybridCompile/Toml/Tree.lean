import HybridCompile.Toml.Basic

/-!
# HybridCompile — building TOML tables

A TOML text grows a tree of tables statement by statement. A table remembers how it came to be,
because that decides who may still add to it: a table with a header of its own is closed to dotted
keys from outside, and a table may get its header only while it has merely been passed through on
the way to a deeper one.

* `Node`, `Entries` — the tree.
* `Entries.add?` — enter a value under a dotted key.
* `Entries.openTable?`, `Entries.openElement?` — what a header does.
* `Entries.toTable` — the finished table.
-/

namespace HybridCompile.Toml

/-- How a table came to be. -/
inductive Origin where
  /-- By a header, or as the root. -/
  | explicit
  /-- By the header of a table within it. -/
  | implicit
  /-- By a dotted key. -/
  | dotted
  deriving DecidableEq, Repr

/-- What stands under a key of a growing tree. -/
inductive Node where
  | value (v : Value)
  | table (origin : Origin) (entries : List (String × Node))
  /-- An array of tables, in order. -/
  | elements (tables : List (List (String × Node)))

/-- The content of a growing table, in the order in which its keys appeared. -/
abbrev Entries := List (String × Node)

namespace Entries

/-- Change what stands under one key; a new key goes to the end. -/
def update? (key : String) (f : Option Node → Option Node) : Entries → Option Entries
  | [] => (f none).map fun node => [(key, node)]
  | (k, node) :: rest =>
    if k = key then (f (some node)).map fun node => (k, node) :: rest
    else (update? key f rest).map ((k, node) :: ·)

/-- Change the table at the end of a path. Tables that are missing on the way are made; an array of
tables is entered at its last element. With `dotted` the path belongs to a dotted key, which may
not enter a table that has a header. -/
def within? (dotted : Bool) (f : Origin → Entries → Option Entries) :
    List String → Origin → Entries → Option Entries
  | [], origin, entries => f origin entries
  | key :: path, _, entries =>
    entries.update? key fun
      | none =>
        -- A table that is made on the way remembers what it was made by.
        let origin := if dotted then .dotted else .implicit
        (within? dotted f path origin []).map (.table origin)
      | some (.value _) => none
      | some (.table origin inner) =>
        if dotted && origin = .explicit then none
        else (within? dotted f path origin inner).map (.table origin)
      | some (.elements tables) =>
        match tables.getLast? with
        | none => none
        | some inner =>
          (within? dotted f path .explicit inner).map fun last =>
            .elements (tables.dropLast ++ [last])

/-- Enter a value under a dotted key, given as the path before its last part and that part. A key
is entered once, and only tables that dotted keys made are open to a dotted key. -/
def addHere? (path : List String) (key : String) (v : Value) (entries : Entries) : Option Entries :=
  within? true (fun origin inner =>
    -- Without a path the key belongs to the table itself, with one to a table of dotted keys.
    if (origin = .dotted) = path.isEmpty then none
    else inner.update? key fun
      | none => some (.value v)
      | some _ => none) path .explicit entries

/-- Enter a value under a dotted key of the table whose path is `table`. -/
def add? (table : List String) (path : List String) (key : String) (v : Value) (entries : Entries) :
    Option Entries :=
  within? false (fun _ inner => inner.addHere? path key v) table .explicit entries

/-- Give the table at a path its header. -/
def openTable? (path : List String) (key : String) (entries : Entries) : Option Entries :=
  within? false (fun _ inner =>
    inner.update? key fun
      | none => some (.table .explicit [])
      -- A table that was only passed through gets its header late.
      | some (.table .implicit children) => some (.table .explicit children)
      | some _ => none) path .explicit entries

/-- Begin the next element of the array of tables at a path. -/
def openElement? (path : List String) (key : String) (entries : Entries) : Option Entries :=
  within? false (fun _ inner =>
    inner.update? key fun
      | none => some (.elements [[]])
      | some (.elements tables) => some (.elements (tables ++ [[]]))
      | some _ => none) path .explicit entries

end Entries

mutual

/-- The finished value of a node. -/
def Node.toValue : Node → Value
  | .value v => v
  | .table _ entries => .table (Entries.toTable entries)
  | .elements tables => .array (Entries.toTables tables)

def Entries.toTable : List (String × Node) → List (String × Value)
  | [] => []
  | (key, node) :: rest => (key, node.toValue) :: Entries.toTable rest

def Entries.toTables : List (List (String × Node)) → List Value
  | [] => []
  | entries :: rest => .table (Entries.toTable entries) :: Entries.toTables rest

end

end HybridCompile.Toml
