import HybridCompile.Json.Basic

/-!
# HybridCompile — JSON text

Two layouts of one value: `compact` has no blanks at all, `pretty` puts every item of a list and
every member of an object on a line of its own, two blanks deeper than its surroundings.

In both a string escapes the double quote, the backslash and the controls below the space, the
usual ones by their letter and the others by four hexadecimal digits.
-/

namespace HybridCompile.Json

def hexDigit (n : Nat) : Char :=
  Char.ofNat (if n < 10 then n + 48 else n + 87)

/-- The escape of a code unit by its four hexadecimal digits. -/
def escapeUnit (n : Nat) : List Char :=
  ['\\', 'u', hexDigit (n / 4096 % 16), hexDigit (n / 256 % 16), hexDigit (n / 16 % 16),
    hexDigit (n % 16)]

/-- One character of a string literal. -/
def escapeChar (c : Char) : List Char :=
  if c == '"' then ['\\', '"']
  else if c == '\\' then ['\\', '\\']
  else if c == '\n' then ['\\', 'n']
  else if c == '\r' then ['\\', 'r']
  else if c == '\t' then ['\\', 't']
  else if c == '\x08' then ['\\', 'b']
  else if c == '\x0c' then ['\\', 'f']
  else if c.toNat < 0x20 then escapeUnit c.toNat
  else [c]

/-- A string literal. A literal that denotes no text is written as the least lone surrogate. -/
def literal : Literal → List Char
  | some s => '"' :: s.toList.flatMap escapeChar ++ ['"']
  | none => '"' :: escapeUnit 0xD800 ++ ['"']

mutual

/-- The text of a value without blanks. -/
def compactChars : Json → List Char
  | .null => ['n', 'u', 'l', 'l']
  | .bool true => ['t', 'r', 'u', 'e']
  | .bool false => ['f', 'a', 'l', 's', 'e']
  | .number literal => literal.toList
  | .string text => literal text
  | .array [] => ['[', ']']
  | .array (item :: rest) => '[' :: compactChars item ++ compactItems rest
  | .object [] => ['\x7b', '\x7d']
  | .object ((key, value) :: rest) =>
    '\x7b' :: literal key ++ ':' :: compactChars value ++ compactMembers rest

/-- The items after the first, and the closing bracket. -/
def compactItems : List Json → List Char
  | [] => [']']
  | item :: rest => ',' :: compactChars item ++ compactItems rest

/-- The members after the first, and the closing brace. -/
def compactMembers : List (Literal × Json) → List Char
  | [] => ['\x7d']
  | (key, value) :: rest =>
    ',' :: literal key ++ ':' :: compactChars value ++ compactMembers rest

end

/-- The text of a value without blanks. -/
def compact (v : Json) : String := String.ofList (compactChars v)

/-- A line feed and the blanks that begin a line at the given depth. -/
def newLine (depth : Nat) : List Char :=
  '\n' :: List.replicate (2 * depth) ' '

mutual

/-- The text of a value laid out over lines; `depth` is that of the line it starts on. -/
def prettyChars (depth : Nat) : Json → List Char
  | .null => ['n', 'u', 'l', 'l']
  | .bool true => ['t', 'r', 'u', 'e']
  | .bool false => ['f', 'a', 'l', 's', 'e']
  | .number literal => literal.toList
  | .string text => literal text
  | .array [] => ['[', ']']
  | .array (item :: rest) =>
    '[' :: newLine (depth + 1) ++ prettyChars (depth + 1) item ++ prettyItems depth rest
  | .object [] => ['\x7b', '\x7d']
  | .object ((key, value) :: rest) =>
    '\x7b' :: newLine (depth + 1) ++ literal key ++ ':' :: ' ' :: prettyChars (depth + 1) value
      ++ prettyMembers depth rest

/-- The items after the first, and the closing bracket. -/
def prettyItems (depth : Nat) : List Json → List Char
  | [] => newLine depth ++ [']']
  | item :: rest =>
    ',' :: newLine (depth + 1) ++ prettyChars (depth + 1) item ++ prettyItems depth rest

/-- The members after the first, and the closing brace. -/
def prettyMembers (depth : Nat) : List (Literal × Json) → List Char
  | [] => newLine depth ++ ['\x7d']
  | (key, value) :: rest =>
    ',' :: newLine (depth + 1) ++ literal key ++ ':' :: ' ' :: prettyChars (depth + 1) value
      ++ prettyMembers depth rest

end

/-- The text of a value laid out over lines. -/
def pretty (v : Json) : String := String.ofList (prettyChars 0 v)

end HybridCompile.Json
