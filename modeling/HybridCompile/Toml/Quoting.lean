/-!
# HybridCompile — writing TOML strings

A text is written in the plainest of four styles that holds it without escapes, and with escapes
when none does. In order of preference:

1. between double quotes, if it has no double quote, no backslash, no control and no line feed;
2. between single quotes, if it has no single quote, no control and no line feed;
3. between three double quotes, if it has no backslash, no control, and at most two double quotes
   in a row;
4. between three single quotes, if it has no control and at most two single quotes in a row.

A tab counts as no control here, though the double-quoted styles still escape it. Between three
quotes a text with a line feed starts on a line of its own. A text that fits no style is written
with escapes, between three double quotes if it has a line feed and between single ones if not.
-/

namespace HybridCompile.Toml

/-- The longest run of one character in a text, after a run of `current` before it. -/
def longestRun (c : Char) (current : Nat) : List Char → Nat
  | [] => current
  | d :: rest =>
    if d == c then longestRun c (current + 1) rest
    else max current (longestRun c 0 rest)

/-- A control that only an escape can write: all but the tab and the line feed. -/
def needsEscape (c : Char) : Bool :=
  (c.toNat < 0x20 && c != '\t' && c != '\n') || c.toNat == 0x7F

/-- The style of a string literal. -/
inductive Style where
  | basic
  | literal
  | multiBasic
  | multiLiteral
  deriving DecidableEq, Repr

/-- The style for a text. -/
def chooseStyle (cs : List Char) : Style :=
  let doubles := longestRun '"' 0 cs
  let singles := longestRun '\'' 0 cs
  let control := cs.any needsEscape
  let backslash := cs.contains '\\'
  let feed := cs.contains '\n'
  if !control && !backslash && doubles = 0 && !feed then .basic
  else if !control && singles = 0 && !feed then .literal
  else if !control && !backslash && doubles ≤ 2 then .multiBasic
  else if !control && singles ≤ 2 then .multiLiteral
  else if feed then .multiBasic
  else .basic

def hexDigit (n : Nat) : Char :=
  Char.ofNat (if n < 10 then n + 48 else n + 55)

/-- One character between double quotes. The double quote itself is not this function's concern. -/
def escapeChar (c : Char) : List Char :=
  if c == '\\' then ['\\', '\\']
  else if c == '\x08' then ['\\', 'b']
  else if c == '\t' then ['\\', 't']
  else if c == '\n' then ['\\', 'n']
  else if c == '\x0c' then ['\\', 'f']
  else if c == '\r' then ['\\', 'r']
  else if c.toNat < 0x20 || c.toNat == 0x7F then
    ['\\', 'u', '0', '0', hexDigit (c.toNat / 16), hexDigit (c.toNat % 16)]
  else [c]

/-- The inside of a basic string. -/
def basicInside (cs : List Char) : List Char :=
  cs.flatMap fun c => if c == '"' then ['\\', '"'] else escapeChar c

/-- The inside of a basic string over lines, after `run` double quotes that were written as they
are. Line feeds stay, and so do two double quotes in a row; a third is escaped. -/
def multiInside (run : Nat) : List Char → List Char
  | [] => []
  | '"' :: rest =>
    if run < 2 then '"' :: multiInside (run + 1) rest
    else '\\' :: '"' :: multiInside 0 rest
  | '\n' :: rest => '\n' :: multiInside 0 rest
  | c :: rest => escapeChar c ++ multiInside 0 rest

/-- A text between three quotes begins on a new line when it has a line feed. -/
def opening (cs : List Char) : List Char :=
  if cs.contains '\n' then ['\n'] else []

/-- A string literal that denotes the text. -/
def quote (cs : List Char) : List Char :=
  match chooseStyle cs with
  | .basic => '"' :: basicInside cs ++ ['"']
  | .literal => '\'' :: cs ++ ['\'']
  | .multiBasic => ['"', '"', '"'] ++ opening cs ++ multiInside 0 cs ++ ['"', '"', '"']
  | .multiLiteral => ['\'', '\'', '\''] ++ opening cs ++ cs ++ ['\'', '\'', '\'']

end HybridCompile.Toml
