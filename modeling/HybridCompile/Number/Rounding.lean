/-!
# HybridCompile — rounding to the nearest

Every rounding here goes to the nearest value, and a tie goes to the even neighbour.

* `roundDiv` — the whole number nearest to a quotient.
* `roundBits` — the nearest number that has at most so many significant bits. A binary floating
  format with `p` bits whose smallest step is `u` holds the multiples `n · u` with `n` of at most
  `p` significant bits, so this is the format's own rounding, on the multiples.
-/

namespace HybridCompile.Number

/-- The whole number nearest to `num / den`; a tie goes to the even one. -/
def roundDiv (num den : Nat) : Nat :=
  let quotient := num / den
  let twice := 2 * (num % den)
  if twice < den then quotient
  else if den < twice then quotient + 1
  else if quotient % 2 == 0 then quotient else quotient + 1

/-- The result is within half a unit of the quotient. -/
theorem roundDiv_near {num den : Nat} (h : 0 < den) :
    2 * num ≤ (2 * roundDiv num den + 1) * den ∧ 2 * roundDiv num den * den ≤ 2 * num + den := by
  have hdiv := Nat.div_add_mod num den
  have hmod := Nat.mod_lt num h
  generalize num / den = q at *
  generalize num % den = r at *
  subst hdiv
  have hq : ∀ k, k * den = den * k := fun k => Nat.mul_comm k den
  unfold roundDiv
  have hquot : (den * q + r) / den = q := by
    rw [Nat.mul_add_div h, Nat.div_eq_of_lt hmod, Nat.add_zero]
  have hrem : (den * q + r) % den = r := by
    rw [Nat.mul_add_mod, Nat.mod_eq_of_lt hmod]
  simp only [hquot, hrem]
  constructor <;> split <;> (try split) <;> (try split) <;> grind

/-- How many binary digits a number has. -/
def bitLength (n : Nat) : Nat :=
  if n = 0 then 0 else n.log2 + 1

/-- The nearest number to `num / den` that has at most `bits` significant bits. -/
def roundBits (bits num den : Nat) : Nat :=
  let step := Nat.pow 2 (bitLength (num / den) - bits)
  step * roundDiv num (den * step)

end HybridCompile.Number
