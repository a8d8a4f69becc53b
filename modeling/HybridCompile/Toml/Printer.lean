import HybridCompile.Toml.Basic
import HybridCompile.Toml.Quoting

/-!
# HybridCompile — TOML text

A document is written entry by entry, one to a line, and each section stands under its header
after an empty line. An array of two or more items takes a line for each item.
-/

namespace HybridCompile.Toml

mutual

def valueChars : Value → List Char
  | .text s => quote s.toList
  | .integer n => (toString n.toInt).toList
  | .float literal => literal.toList
  | .boolean true => ['t', 'r', 'u', 'e']
  | .boolean false => ['f', 'a', 'l', 's', 'e']
  | .dateTime literal => literal.toList
  | .array [] => ['[', ']']
  | .array [item] => '[' :: valueChars item ++ [']']
  | .array (item :: rest) => '[' :: itemsChars (item :: rest)
  | .table [] => ['\x7b', '\x7d']
  | .table ((key, value) :: rest) =>
    ['\x7b', ' '] ++ key.toList ++ [' ', '=', ' '] ++ valueChars value ++ entriesChars rest

/-- The items of an array, each on a line of its own, and the closing bracket. -/
def itemsChars : List Value → List Char
  | [] => ['\n', ']']
  | item :: rest => ['\n', ' ', ' ', ' ', ' '] ++ valueChars item ++ ',' :: itemsChars rest

/-- The entries of an inline table after the first, and the closing brace. -/
def entriesChars : List (String × Value) → List Char
  | [] => [' ', '\x7d']
  | (key, value) :: rest =>
    [',', ' '] ++ key.toList ++ [' ', '=', ' '] ++ valueChars value ++ entriesChars rest

end

def entryChars (entry : String × Value) : List Char :=
  entry.1.toList ++ [' ', '=', ' '] ++ valueChars entry.2 ++ ['\n']

def headerChars : Header → List Char
  | .table name => '[' :: name.toList ++ [']', '\n']
  | .element name => ['[', '['] ++ name.toList ++ [']', ']', '\n']

def sectionChars (s : Section) : List Char :=
  headerChars s.header ++ s.entries.flatMap entryChars

/-- The sections of a document, with an empty line between any two pieces of it. -/
def sectionsChars : (started : Bool) → List Section → List Char
  | _, [] => []
  | started, s :: rest =>
    (if started then ['\n'] else []) ++ sectionChars s ++ sectionsChars true rest

def Document.render (d : Document) : String :=
  String.ofList (d.entries.flatMap entryChars ++ sectionsChars (!d.entries.isEmpty) d.sections)

end HybridCompile.Toml
