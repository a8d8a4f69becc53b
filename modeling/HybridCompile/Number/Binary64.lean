import HybridCompile.Number.Rounding
import HybridCompile.Number.Decimal

/-!
# HybridCompile — binary64 quantities

Rates and sizes in a report are computed in the binary64 format and then written with a fixed
number of places. Only numbers that are not negative occur, so such a number is kept as the count
of the format's smallest steps, `2 ^ -1074`. Each operation is exact arithmetic followed by one
rounding, and the decimal text is the rounding of the exact binary value.
-/

namespace HybridCompile.Number

/-- A finite binary64 number that is not negative, as a count of steps of `2 ^ -1074`. -/
structure Binary64 where
  steps : Nat
  deriving DecidableEq, Repr

namespace Binary64

def one : Nat := Nat.pow 2 1074

def ofRatio (num den : Nat) : Binary64 := ⟨roundBits 53 (num * one) den⟩

def ofNat (n : Nat) : Binary64 := ofRatio n 1

def add (x y : Binary64) : Binary64 := ⟨roundBits 53 (x.steps + y.steps) 1⟩

def mul (x y : Binary64) : Binary64 := ⟨roundBits 53 (x.steps * y.steps) one⟩

def div (x y : Binary64) : Binary64 := ⟨roundBits 53 (x.steps * one) y.steps⟩

/-- The text with `places` decimals. -/
def toFixed (places : Nat) (x : Binary64) : String :=
  withPlaces (roundDiv (x.steps * Nat.pow 10 places) one) places

/-- The size of a decimal number, rounded to binary64; `none` when it is past the largest finite
number. Exponents far outside the format's range are settled without writing them out. -/
def ofDecimal? (d : Decimal) : Option Binary64 :=
  let places := (toString d.digits).length
  if d.digits = 0 then some ⟨0⟩
  else if 400 < d.exponent + places then none
  else if d.exponent + places < -400 then some ⟨0⟩
  else
    let x := match d.exponent with
      | .ofNat n => ofRatio (d.digits * Nat.pow 10 n) 1
      | .negSucc n => ofRatio d.digits (Nat.pow 10 (n + 1))
    if x.steps < Nat.pow 2 1024 * one then some x else none

end Binary64

end HybridCompile.Number
