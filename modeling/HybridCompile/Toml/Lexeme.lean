import HybridCompile.Json.Token

/-!
# HybridCompile — reading TOML strings and blanks

The lexical pieces of a TOML text that stand between characters and values: blanks, comments, line
ends, and the four styles of string. Each reader takes the characters from where it stands and
returns what it read with the characters after it.
-/

namespace HybridCompile.Toml

/-- A reader: what it reads from the front of a text, and what is left. -/
abbrev Reader (α : Type) := List Char → Option (α × List Char)

def isSpace (c : Char) : Bool := c == ' ' || c == '\t'

/-- Pass over blanks within the line. -/
def skipSpace (cs : List Char) : List Char := cs.dropWhile isSpace

/-- A character that may stand as itself: no control but the tab. -/
def isPlain (c : Char) : Bool := c == '\t' || (0x20 ≤ c.toNat && c.toNat != 0x7F)

/-- Pass over the end of a line: blanks, a comment, and the line feed, unless the text ends. -/
def lineEnd? (cs : List Char) : Option (List Char) :=
  let rest := skipSpace cs
  let rest := if rest.head? == some '#' then rest.dropWhile isPlain else rest
  match rest with
  | [] => some []
  | '\n' :: rest => some rest
  | '\r' :: '\n' :: rest => some rest
  | _ => none

/-- Pass over blanks, line ends and comments. `comment` while inside a comment, which has to be
ended by a line feed. -/
def skipTrivia? (comment : Bool) : List Char → Option (List Char)
  | [] => if comment then none else some []
  | '\n' :: rest => skipTrivia? false rest
  | '\r' :: '\n' :: rest => skipTrivia? false rest
  | c :: rest =>
    if comment then
      if isPlain c then skipTrivia? true rest else none
    else if isSpace c then skipTrivia? false rest
    else if c == '#' then skipTrivia? true rest
    else some (c :: rest)

/-! ## Strings -/

/-- The number that hexadecimal digits spell. -/
def hexNumber? (cs : List Char) : Option Nat :=
  cs.foldlM (fun n c => (Json.hexValue? c).map (16 * n + ·)) 0

/-- The character with the number that hexadecimal digits spell, if there is such a character. -/
def hexChar? (cs : List Char) : Option Char := do
  let n ← hexNumber? cs
  if n < 0xD800 || (0xDFFF < n && n < 0x110000) then some (Char.ofNat n) else none

/-- The character of an escape by one letter. -/
def escapeLetter? (c : Char) : Option Char :=
  if c == '"' || c == '\\' then some c
  else if c == 'b' then some '\x08'
  else if c == 't' then some '\t'
  else if c == 'n' then some '\n'
  else if c == 'f' then some '\x0c'
  else if c == 'r' then some '\r'
  else none

/-- Put a character in front of what was read. -/
def consFst (c : Char) (r : List Char × List Char) : List Char × List Char := (c :: r.1, r.2)

def basicRest : Reader (List Char)
  | [] => none
  | '"' :: rest => some ([], rest)
  | '\\' :: 'u' :: a :: b :: c :: d :: rest => do
    let e ← hexChar? [a, b, c, d]
    (basicRest rest).map (consFst e)
  | '\\' :: 'U' :: a :: b :: c :: d :: e :: f :: g :: h :: rest => do
    let x ← hexChar? [a, b, c, d, e, f, g, h]
    (basicRest rest).map (consFst x)
  | '\\' :: c :: rest => do
    let e ← escapeLetter? c
    (basicRest rest).map (consFst e)
  | c :: rest => if c != '\\' && isPlain c then (basicRest rest).map (consFst c) else none

def literalRest : Reader (List Char)
  | [] => none
  | '\'' :: rest => some ([], rest)
  | c :: rest => if isPlain c then (literalRest rest).map (consFst c) else none

/-- The end of a string between three quotes, after three of them: up to two more still belong to
the string. -/
def closing? (q : Char) (rest : List Char) : Option (List Char × List Char) :=
  let extra := rest.takeWhile (· == q)
  if extra.length ≤ 2 then some (extra, rest.dropWhile (· == q)) else none

/-- Whether the rest of the line is blank. -/
def blankLine (cs : List Char) : Bool :=
  match skipSpace cs with
  | '\n' :: _ => true
  | '\r' :: '\n' :: _ => true
  | _ => false

/-- A basic string over lines, after its opening quotes. `joining` after a backslash at the end of
a line, while blanks and line ends are passed over. -/
def multiBasicRest : (joining : Bool) → Reader (List Char)
  | _, [] => none
  | true, ' ' :: rest => multiBasicRest true rest
  | true, '\t' :: rest => multiBasicRest true rest
  | true, '\n' :: rest => multiBasicRest true rest
  | true, '\r' :: '\n' :: rest => multiBasicRest true rest
  | false, '\r' :: '\n' :: rest => (multiBasicRest false rest).map (consFst '\n')
  | _, '"' :: '"' :: '"' :: rest => closing? '"' rest
  | _, '\\' :: 'u' :: a :: b :: c :: d :: rest => do
    let e ← hexChar? [a, b, c, d]
    (multiBasicRest false rest).map (consFst e)
  | _, '\\' :: 'U' :: a :: b :: c :: d :: e :: f :: g :: h :: rest => do
    let x ← hexChar? [a, b, c, d, e, f, g, h]
    (multiBasicRest false rest).map (consFst x)
  | _, '\\' :: c :: rest =>
    match escapeLetter? c with
    | some e => (multiBasicRest false rest).map (consFst e)
    -- A backslash with only blanks after it on its line joins the next text to this line.
    | none => if blankLine (c :: rest) then multiBasicRest true (c :: rest) else none
  | _, c :: rest =>
    if c == '\n' || (c != '\\' && isPlain c) then (multiBasicRest false rest).map (consFst c)
    else none

/-- A literal string over lines, after its opening quotes. -/
def multiLiteralRest : Reader (List Char)
  | [] => none
  | '\r' :: '\n' :: rest => (multiLiteralRest rest).map (consFst '\n')
  | '\'' :: '\'' :: '\'' :: rest => closing? '\'' rest
  | c :: rest =>
    if c == '\n' || isPlain c then (multiLiteralRest rest).map (consFst c) else none

/-- Pass over a line end right after the opening of a string over lines. -/
def skipFirstFeed : List Char → List Char
  | '\n' :: rest => rest
  | '\r' :: '\n' :: rest => rest
  | cs => cs

/-- A string in any style. -/
def string? : Reader (List Char)
  | '"' :: '"' :: '"' :: rest => multiBasicRest false (skipFirstFeed rest)
  | '"' :: rest => basicRest rest
  | '\'' :: '\'' :: '\'' :: rest => multiLiteralRest (skipFirstFeed rest)
  | '\'' :: rest => literalRest rest
  | _ => none

/-! ## Keys -/

def isBare (c : Char) : Bool := c.isAlphanum || c == '_' || c == '-'

/-- One key: without quotes, or a string on one line. -/
def simpleKey? : Reader String
  | '"' :: rest => (basicRest rest).map fun r => (String.ofList r.1, r.2)
  | '\'' :: rest => (literalRest rest).map fun r => (String.ofList r.1, r.2)
  | cs =>
    let name := cs.takeWhile isBare
    if name.isEmpty then none else some (String.ofList name, cs.dropWhile isBare)

end HybridCompile.Toml
