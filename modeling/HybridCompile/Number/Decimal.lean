/-!
# HybridCompile — decimal numbers

A decimal literal is a sign, the whole number that its digits spell, and a power of ten. This
module reads the common written form and writes digits back with the point in its place.

* `Decimal.ofChars?` — read `-12.50e+3`.
* `positional` — write `digits · 10 ^ exponent` without an exponent.
* `withPlaces` — write a whole number of `10 ^ -places`.
-/

namespace HybridCompile.Number

def isDigit (c : Char) : Bool := '0' ≤ c && c ≤ '9'

def digitValue (c : Char) : Nat := c.toNat - '0'.toNat

/-- The number that a run of decimal digits spells. -/
def ofDigits (cs : List Char) : Nat :=
  cs.foldl (fun n c => 10 * n + digitValue c) 0

/-- The number spelt by a text of one or more decimal digits. -/
def nat? (cs : List Char) : Option Nat :=
  if !cs.isEmpty && cs.all isDigit then some (ofDigits cs) else none

/-- A signed decimal number, `± digits · 10 ^ exponent`. -/
structure Decimal where
  negative : Bool
  digits : Nat
  exponent : Int
  deriving DecidableEq, Repr

namespace Decimal

/-- Read an exponent: an optional sign and digits. -/
def exponent? (cs : List Char) : Option Int :=
  match cs with
  | '-' :: rest => (nat? rest).map fun n => -(n : Int)
  | '+' :: rest => (nat? rest).map Int.ofNat
  | rest => (nat? rest).map Int.ofNat

/-- Read an unsigned decimal: digits, optionally a point and digits, optionally an exponent. -/
def unsigned? (negative : Bool) (cs : List Char) : Option Decimal := do
  let mantissa := cs.takeWhile fun c => c != 'e' && c != 'E'
  let tail := cs.dropWhile fun c => c != 'e' && c != 'E'
  let shift ← match tail with
    | [] => some 0
    | _ :: power => exponent? power
  let whole := mantissa.takeWhile (· != '.')
  match mantissa.dropWhile (· != '.') with
  | [] => do
    let digits ← nat? whole
    return ⟨negative, digits, shift⟩
  | _ :: fraction => do
    let _ ← nat? fraction
    let digits ← nat? (whole ++ fraction)
    return ⟨negative, digits, shift - fraction.length⟩

/-- Read a signed decimal. -/
def ofChars? (cs : List Char) : Option Decimal :=
  match cs with
  | '-' :: rest => unsigned? true rest
  | '+' :: rest => unsigned? false rest
  | rest => unsigned? false rest

end Decimal

/-- The digits of a whole number of `10 ^ -places`, with the point in its place. -/
def withPlaces (n places : Nat) : String :=
  if places = 0 then toString n
  else
    let digits := (toString n).toList
    let digits := List.replicate (places + 1 - digits.length) '0' ++ digits
    let whole := digits.length - places
    String.ofList (digits.take whole ++ '.' :: digits.drop whole)

/-- `digits · 10 ^ exponent`, written out with no exponent. -/
def positional (digits : Nat) (exponent : Int) : String :=
  match exponent with
  | .ofNat zeros => toString (digits * Nat.pow 10 zeros)
  | .negSucc n => withPlaces digits (n + 1)

end HybridCompile.Number
