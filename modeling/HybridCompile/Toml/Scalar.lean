import HybridCompile.Toml.Basic
import HybridCompile.Toml.Lexeme
import HybridCompile.Number.Binary64

/-!
# HybridCompile — TOML numbers, names and dates

The values that are neither strings nor collections are words: runs of letters, digits and the
marks `+ - . _ :`. A word is read as a whole; a date and a time may also be two words with one
blank between them.

Digits may be grouped by single underscores between digits. A whole number is decimal without
leading zeros, or hexadecimal, octal or binary under a `0x`, `0o` or `0b`; it has to fit 64 bits
with a sign. A number with a point or an exponent has to be below the range where it would become
infinite.
-/

namespace HybridCompile.Toml

/-- A run of digits, grouped by single underscores between digits; the digits without them. -/
def grouped? (isDigit : Char → Bool) : List Char → Option (List Char)
  | [] => none
  | [c] => if isDigit c then some [c] else none
  | c :: '_' :: rest => if isDigit c then (grouped? isDigit rest).map (c :: ·) else none
  | c :: rest => if isDigit c then (grouped? isDigit rest).map (c :: ·) else none

/-- Split an optional sign off. -/
def splitSign : List Char → Bool × List Char
  | '-' :: rest => (true, rest)
  | '+' :: rest => (false, rest)
  | rest => (false, rest)

/-- Decimal digits without a needless leading zero. -/
def decimalDigits? (cs : List Char) : Option (List Char) := do
  let digits ← grouped? Number.isDigit cs
  if digits.length ≠ 1 && digits.head? == some '0' then none else some digits

/-- A 64-bit number, if the value fits. -/
def fit? (n : Int) : Option Int64 :=
  if Int64.minValue.toInt ≤ n && n ≤ Int64.maxValue.toInt then some (Int64.ofInt n) else none

/-- The number that digits of a base spell, under a base's mark. -/
def based? (base : Nat) (cs : List Char) : Option Int64 := do
  let digits ← grouped? (fun c => (Json.hexValue? c).any (· < base)) cs
  let n ← digits.foldlM (fun n c => (Json.hexValue? c).map (base * n + ·)) 0
  fit? n

def integer? : List Char → Option Int64
  | '0' :: 'x' :: rest => based? 16 rest
  | '0' :: 'o' :: rest => based? 8 rest
  | '0' :: 'b' :: rest => based? 2 rest
  | cs => do
    let (negative, rest) := splitSign cs
    let n := Number.ofDigits (← decimalDigits? rest)
    fit? (if negative then -(n : Int) else n)

/-- Whether a word is a number with a point or an exponent, or one of the special ones. -/
def isFloat (cs : List Char) : Bool :=
  let (negative, rest) := splitSign cs
  if rest = ['i', 'n', 'f'] || rest = ['n', 'a', 'n'] then true
  else
    let mantissa := rest.takeWhile fun c => c != 'e' && c != 'E'
    let power := rest.dropWhile fun c => c != 'e' && c != 'E'
    let whole := mantissa.takeWhile (· != '.')
    let fraction := mantissa.dropWhile (· != '.')
    let shaped :=
      (decimalDigits? whole).isSome
        && (fraction.isEmpty || (grouped? Number.isDigit fraction.tail).isSome)
        && (power.isEmpty || (grouped? Number.isDigit (splitSign power.tail).2).isSome)
        && !(fraction.isEmpty && power.isEmpty)
    -- Only a number without a minus sign may not become infinite.
    let finite := match Number.Decimal.ofChars? (rest.filter (· != '_')) with
      | some d => (Number.Binary64.ofDecimal? d).isSome
      | none => false
    shaped && (negative || finite)

/-! ## Dates and times -/

/-- The number that exactly `n` decimal digits spell, at the front of a text. -/
def digits? (n : Nat) (cs : List Char) : Option (Nat × List Char) :=
  let front := cs.take n
  if front.length = n && front.all Number.isDigit then some (Number.ofDigits front, cs.drop n)
  else none

/-- The mark `c` at the front of a text. -/
def mark? (c : Char) (cs : List Char) : Option (List Char) :=
  if cs.head? = some c then some cs.tail else none

/-- Whether a year has a 29th of February. -/
def isLeap (year : Nat) : Bool :=
  (year % 4 == 0 && year % 100 != 0) || year % 400 == 0

def daysIn (year month : Nat) : Nat :=
  if month = 2 then (if isLeap year then 29 else 28)
  else if month ∈ [4, 6, 9, 11] then 30 else 31

/-- Pass over a date. -/
def date? (cs : List Char) : Option (List Char) := do
  let (year, cs) ← digits? 4 cs
  let cs ← mark? '-' cs
  let (month, cs) ← digits? 2 cs
  let cs ← mark? '-' cs
  let (day, cs) ← digits? 2 cs
  if 1 ≤ month && month ≤ 12 && 1 ≤ day && day ≤ daysIn year month then some cs else none

/-- Pass over a time of day, with or without a fraction of a second. -/
def time? (cs : List Char) : Option (List Char) := do
  let (hour, cs) ← digits? 2 cs
  let cs ← mark? ':' cs
  let (minute, cs) ← digits? 2 cs
  let cs ← mark? ':' cs
  let (second, cs) ← digits? 2 cs
  if hour ≤ 23 && minute ≤ 59 && second ≤ 60 then
    match cs with
    | '.' :: c :: rest => if Number.isDigit c then some (rest.dropWhile Number.isDigit) else none
    | _ => some cs
  else none

/-- Whether a text is nothing, or a distance from universal time. -/
def isOffset (cs : List Char) : Bool :=
  match cs with
  | [] => true
  | ['Z'] => true
  | ['z'] => true
  | sign :: rest =>
    (sign == '+' || sign == '-') &&
      ((do
        let (hour, rest) ← digits? 2 rest
        let rest ← mark? ':' rest
        let (minute, rest) ← digits? 2 rest
        return hour ≤ 23 && minute ≤ 59 && rest.isEmpty : Option Bool).getD false)

/-- Whether a word is a time with an optional distance from universal time. -/
def isZonedTime (cs : List Char) : Bool :=
  (time? cs).any isOffset

/-- Whether a word is a date, alone. -/
def isDate (cs : List Char) : Bool :=
  (date? cs).any List.isEmpty

/-- Whether a word is a date, a time, or a date and a time. -/
def isDateTime (cs : List Char) : Bool :=
  isDate cs || (time? cs).any List.isEmpty ||
    (date? cs).any fun
      | c :: rest => (c == 'T' || c == 't') && isZonedTime rest
      | [] => false

/-! ## Words -/

def isWordChar (c : Char) : Bool :=
  c.isAlphanum || c == '+' || c == '-' || c == '.' || c == '_' || c == ':'

/-- The value of a word. -/
def word? (cs : List Char) : Option Value :=
  if cs = ['t', 'r', 'u', 'e'] then some (.boolean true)
  else if cs = ['f', 'a', 'l', 's', 'e'] then some (.boolean false)
  else if isDateTime cs then some (.dateTime (String.ofList cs))
  else if isFloat cs then some (.float (String.ofList cs))
  else (integer? cs).map .integer

/-- A word, or a date and a time with a blank between them, at the front of a text. -/
def scalar? : Reader Value := fun cs =>
  let front := cs.takeWhile isWordChar
  let rest := cs.dropWhile isWordChar
  match rest with
  | ' ' :: c :: more =>
    -- A digit one blank after a date has to begin a time.
    if isDate front && Number.isDigit c then
      let time := (c :: more).takeWhile isWordChar
      if isZonedTime time then
        some (.dateTime (String.ofList (front ++ ' ' :: time)), (c :: more).dropWhile isWordChar)
      else none
    else (word? front).map fun v => (v, rest)
  | _ => (word? front).map fun v => (v, rest)

end HybridCompile.Toml
