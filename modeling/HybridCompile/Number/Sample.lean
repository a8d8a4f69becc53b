import HybridCompile.Number.Binary64

/-!
# HybridCompile — calibration samples

Calibration data are numbers of the binary32 format. A finite one is a sign and a count of the
format's smallest steps, `2 ^ -149`; besides there are the infinities and what is not a number.

* `Sample.ofDecimal` — a decimal number, rounded first to binary64 and then to binary32.
* `Sample.ofText?` — read a sample.
* `Magnitude` — the size of a sample: finite or infinite, ordered.
* `Magnitude.text` — the fewest digits that read back as the same number, nearest to it, written
  without an exponent.
-/

namespace HybridCompile.Number

/-- The size of a number: a count of steps of `2 ^ -149`, or infinity. -/
inductive Magnitude where
  | finite (steps : Nat)
  | infinite
  deriving DecidableEq, Repr, Inhabited

/-- A binary32 number. -/
inductive Sample where
  | notANumber
  | signed (negative : Bool) (size : Magnitude)
  deriving DecidableEq, Repr, Inhabited

namespace Magnitude

def max : Magnitude → Magnitude → Magnitude
  | .infinite, _ => .infinite
  | _, .infinite => .infinite
  | .finite a, .finite b => .finite (Nat.max a b)

/-- The nearest binary32 size to `num / den`; from the middle between the largest finite number
and the next power of two on, it is infinite. -/
def ofRatio (num den : Nat) : Magnitude :=
  let steps := roundBits 24 (num * Nat.pow 2 149) den
  if steps < Nat.pow 2 (128 + 149) then .finite steps else .infinite

/-- The points of the decimal grid `10 ^ power` beside a binary32 number that read back as it: the
multiple of `10 ^ power` that is nearest to it, if one lies in the interval of numbers that round
to it. The interval is measured in quarter steps; its ends belong to it when the number's last bit
is zero. -/
def onGrid? (steps : Nat) (power : Int) : Option Nat :=
  let gap := Nat.pow 2 (bitLength steps - 24)
  let even := steps / gap % 2 == 0
  -- Below a power of two the numbers stand half as far apart as above it.
  let below := if steps = gap * Nat.pow 2 23 && 1 < gap then gap else 2 * gap
  let (scale, unit) : Nat × Nat := match power with
    | .ofNat n => (1, Nat.pow 10 n * Nat.pow 2 151)
    | .negSucc n => (Nat.pow 10 (n + 1), Nat.pow 2 151)
  -- From here on the unit is a quarter step divided by `scale`, in which all sizes are whole.
  let value := 4 * steps * scale
  let low := (4 * steps - below) * scale
  let high := (4 * steps + 2 * gap) * scale
  let inside (point : Nat) : Bool :=
    if even then low ≤ point && point ≤ high else low < point && point < high
  let floor := value / unit
  -- Of the two neighbours on the grid the nearer one counts; in the middle, the upper one.
  if inside (floor * unit) then
    if inside ((floor + 1) * unit) && (floor + 1) * unit - value ≤ value - floor * unit then
      some (floor + 1)
    else some floor
  else if inside ((floor + 1) * unit) then some (floor + 1)
  else none

/-- The powers of ten to try, coarsest first. -/
def powers : List Int :=
  (List.range 96).map fun n : Nat => 39 - (n : Int)

def text : Magnitude → String
  | .infinite => "inf"
  | .finite 0 => "0"
  | .finite steps =>
    match powers.findSome? fun power => (onGrid? steps power).map fun digits => (digits, power) with
    | some (digits, power) => positional digits power
    | none => "0"

end Magnitude

namespace Sample

/-- A decimal number as a sample: rounded to binary64, and that to binary32. -/
def ofDecimal (d : Decimal) : Sample :=
  .signed d.negative <|
    match Binary64.ofDecimal? d with
    | none => .infinite
    | some x => Magnitude.ofRatio x.steps Binary64.one

/-- Read a sample: a decimal number, or the name of a value that has no digits. -/
def ofText? (text : String) : Option Sample :=
  match text with
  | "NaN" => some notANumber
  | "inf" => some (signed false .infinite)
  | "-inf" => some (signed true .infinite)
  | text => (Decimal.ofChars? text.toList).map ofDecimal

/-- The size of a sample that is a number. -/
def size? : Sample → Option Magnitude
  | .notANumber => none
  | .signed _ size => some size

end Sample

end HybridCompile.Number
