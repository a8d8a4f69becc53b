import HybridCompile.Toml.Tree
import HybridCompile.Toml.Scalar

/-!
# HybridCompile — reading TOML

A text is a sequence of statements, each on lines of its own: an entry, the header of a table, or
the header of the next element of an array of tables. `statements?` reads them, and `parse?` lets
them act on a growing tree one after the other.

Arrays and inline tables may be nested at most 79 deep, and a dotted key has fewer than 80 parts.
-/

namespace HybridCompile.Toml

/-- A statement. The path of a key is split before its last part. -/
inductive Statement where
  | entry (path : List String) (key : String) (value : Value)
  | table (path : List String) (key : String)
  | element (path : List String) (key : String)

def dottedKey? (cs : List Char) : Option (List String × List Char) :=
  match simpleKey? (skipSpace cs) with
  | none => none
  | some (part, rest) =>
    match skipSpace rest with
    | '.' :: more =>
      if _h : more.length < cs.length then
        (dottedKey? more).map fun r => (part :: r.1, r.2)
      else none
    | rest => some ([part], rest)
termination_by cs.length

/-- A dotted key of an acceptable length, split before its last part. -/
def keyPath? : Reader (List String × String) := fun cs => do
  let (parts, rest) ← dottedKey? cs
  let key ← parts.getLast?
  if parts.length < 80 then some ((parts.dropLast, key), rest) else none

/-- The items of an array after its opening bracket or a comma, to the closing bracket. Between
them there may be blanks, line ends and comments. -/
def items? (item : Reader Value) (cs : List Char) : Option (List Value × List Char) :=
  match skipTrivia? false cs with
  | none => none
  -- A bracket may stand here after a comma too: a trailing comma is allowed.
  | some (']' :: rest) => some ([], rest)
  | some front =>
    match item front with
    | none => none
    | some (v, rest) =>
      match skipTrivia? false rest with
      | some (']' :: rest) => some ([v], rest)
      | some (',' :: rest) =>
        if _h : rest.length < cs.length then
          (items? item rest).map fun r => (v :: r.1, r.2)
        else none
      | _ => none
termination_by cs.length

/-- One entry: a dotted key, the equals sign, and a value. -/
def entry? (item : Reader Value) : Reader ((List String × String) × Value) := fun cs => do
  let (key, rest) ← keyPath? cs
  match rest with
  | '=' :: rest =>
    let (v, rest) ← item (skipSpace rest)
    return ((key, v), rest)
  | _ => none

/-- The entries of an inline table after the first brace or a comma, to the closing brace, entered
into the given ones. -/
def inlineEntries? (item : Reader Value) (entries : Entries) (cs : List Char) :
    Option (Entries × List Char) :=
  match entry? item cs with
  | none => none
  | some (((path, key), v), rest) =>
    match entries.addHere? path key v with
    | none => none
    | some entries =>
      match skipSpace rest with
      | '\x7d' :: rest => some (entries, rest)
      | ',' :: rest =>
        if _h : rest.length < cs.length then inlineEntries? item entries rest else none
      | _ => none
termination_by cs.length

/-- An inline table after its opening brace. -/
def inlineTable? (item : Reader Value) : Reader Value := fun cs =>
  match skipSpace cs with
  | '\x7d' :: rest => some (.table [], rest)
  | _ => (inlineEntries? item [] cs).map fun r => (.table (Entries.toTable r.1), r.2)

/-- A value in which arrays and inline tables nest at most `depth` deep. -/
def value? : (depth : Nat) → Reader Value
  | 0 => fun cs =>
    match cs with
    | '"' :: _ => (string? cs).map fun r => (.text (String.ofList r.1), r.2)
    | '\'' :: _ => (string? cs).map fun r => (.text (String.ofList r.1), r.2)
    | _ => scalar? cs
  | depth + 1 => fun cs =>
    match cs with
    | '[' :: rest => (items? (value? depth) rest).map fun r => (.array r.1, r.2)
    | '\x7b' :: rest => inlineTable? (value? depth) rest
    | '"' :: _ => (string? cs).map fun r => (.text (String.ofList r.1), r.2)
    | '\'' :: _ => (string? cs).map fun r => (.text (String.ofList r.1), r.2)
    | _ => scalar? cs

/-- How deep arrays and inline tables may nest. -/
def maxDepth : Nat := 79

def header? (closing : List Char) (cs : List Char) :
    Option ((List String × String) × List Char) := do
  let (key, rest) ← keyPath? cs
  if rest.take closing.length = closing then
    let rest ← lineEnd? (rest.drop closing.length)
    return (key, rest)
  else none

/-- A statement with the rest of its line. -/
def statement? : Reader Statement := fun cs =>
  match cs with
  | '[' :: '[' :: rest => (header? [']', ']'] rest).map fun r => (.element r.1.1 r.1.2, r.2)
  | '[' :: rest => (header? [']'] rest).map fun r => (.table r.1.1 r.1.2, r.2)
  | _ => do
    let (((path, key), v), rest) ← entry? (value? maxDepth) cs
    let rest ← lineEnd? rest
    return (.entry path key v, rest)

/-- The statements of a text, with blank lines and lines of comment passed over. -/
def statements? (cs : List Char) : Option (List Statement) :=
  match skipSpace cs with
  | [] => some []
  | c :: front =>
    if c == '\n' || c == '\r' || c == '#' then
      match lineEnd? (c :: front) with
      | none => none
      | some rest => if _h : rest.length < cs.length then statements? rest else none
    else
      match statement? (c :: front) with
      | none => none
      | some (s, rest) =>
        if _h : rest.length < cs.length then (statements? rest).map (s :: ·) else none
termination_by cs.length

/-- Let statements act on a tree. Entries go into the table at `table`, the one whose header was
last. -/
def assemble? : (table : List String) → Entries → List Statement → Option Entries
  | _, entries, [] => some entries
  | table, entries, .entry path key v :: rest => do
    assemble? table (← entries.add? table path key v) rest
  | _, entries, .table path key :: rest => do
    assemble? (path ++ [key]) (← entries.openTable? path key) rest
  | _, entries, .element path key :: rest => do
    assemble? (path ++ [key]) (← entries.openElement? path key) rest

/-- The table that a text spells. A byte order mark in front is passed over. -/
def parse? (text : String) : Option Table := do
  let cs := text.toList
  let cs := if cs.head? = some '\uFEFF' then cs.tail else cs
  return Entries.toTable (← assemble? [] [] (← statements? cs))

end HybridCompile.Toml
