import HybridCompile.Number.Decimal
import HybridCompile.Proofs.Text.Delimited

/-!
# HybridCompile — digits

Runs of decimal digits, the numbers that they spell, and where a run of one kind of character ends
in a longer text.

* `takeWhile_append_of_head`, `dropWhile_append_of_head` — a run ends where another kind begins.
* `ne_of_kind`, `not_mem_of_kind` — characters told apart by a kind.
* `Digits`, `WholeNumber` — digits, and digits without needless zeros.
* `wholeNumber_nat`, `ofDigits_nat` — a number is written in digits that spell it; `toList_int` —
  and an integer with a sign in front of them.
-/

namespace HybridCompile.Number

/-! ## Runs -/

section Runs

variable {p : Char → Bool} {front rest : List Char}

/-- A run of characters of one kind ends where the text goes on with another kind, or is over:
`List.takeWhile` takes the run. -/
theorem takeWhile_append_of_head (hfront : ∀ c ∈ front, p c = true)
    (hrest : ∀ c, rest.head? = some c → p c = false) : (front ++ rest).takeWhile p = front := by
  rw [List.takeWhile_append_of_pos hfront]
  cases rest with
  | nil => simp
  | cons c tail => simp [hrest c rfl]

/-- The same run is what `List.dropWhile` passes over. -/
theorem dropWhile_append_of_head (hfront : ∀ c ∈ front, p c = true)
    (hrest : ∀ c, rest.head? = some c → p c = false) : (front ++ rest).dropWhile p = rest := by
  rw [List.dropWhile_append_of_pos hfront]
  cases rest with
  | nil => rfl
  | cons c tail => simp [hrest c rfl]

/-- Characters differ if only one of them is of a kind `p`. -/
theorem ne_of_kind {c mark : Char} (h : p c = true) (hmark : p mark = false) : c ≠ mark := by
  rintro rfl
  rw [h] at hmark
  cases hmark

theorem not_mem_of_kind {c : Char} {marks : List Char} (h : p c = true)
    (hmarks : marks.any p = false) : c ∉ marks := by
  intro hc
  rw [List.any_eq_false] at hmarks
  exact hmarks c hc h

end Runs

/-! ## Digits -/

/-- One or more decimal digits, in the sense of `Number.isDigit`. -/
def Digits (cs : List Char) : Prop := cs ≠ [] ∧ ∀ c ∈ cs, isDigit c = true

/-- The digits of a whole number without needless zeros in front: a zero leads only where it is
alone. JSON and TOML both ask for this. -/
def WholeNumber (cs : List Char) : Prop := Digits cs ∧ (cs.length = 1 ∨ cs.head? ≠ some '0')

theorem isDigit_eq (c : Char) : isDigit c = c.isDigit := by
  rw [Bool.eq_iff_iff, isDigit, Char.isDigit, Bool.and_eq_true, Bool.and_eq_true]
  simp only [decide_eq_true_eq]
  exact Iff.rfl

theorem Digits.append {cs ds : List Char} (hcs : Digits cs) (hds : Digits ds) :
    Digits (cs ++ ds) := by
  refine ⟨by simp [hcs.1], ?_⟩
  intro c hc
  rcases List.mem_append.mp hc with h | h
  · exact hcs.2 c h
  · exact hds.2 c h

/-- Digits are read as a number by `nat?`, whichever number that is. -/
theorem Digits.nat?_isSome {cs : List Char} (h : Digits cs) : (nat? cs).isSome = true := by
  have hall : cs.all isDigit = true := List.all_eq_true.mpr h.2
  simp [nat?, hall, h.1]

theorem digits_nat (n : Nat) : Digits (toString n).toList := by
  refine ⟨Text.toList_nat_ne_nil n, ?_⟩
  intro c hc
  rw [Nat.toString_eq_repr, Nat.toList_repr] at hc
  rw [isDigit_eq]
  exact Nat.isDigit_of_mem_toDigits (by decide) (by decide) hc

/-- A number other than zero does not begin with a zero. By strong induction on the number: it
begins as the number without its last digit does, until there is one digit left. -/
theorem head?_toDigits_ne_zero {n : Nat} (h : n ≠ 0) : (Nat.toDigits 10 n).head? ≠ some '0' := by
  induction n using Nat.strongRecOn with
  | ind n ih =>
    by_cases hn : n < 10
    · rw [Nat.toDigits_of_lt_base hn]
      have hdigit : ∀ d < 10, d ≠ 0 → d.digitChar ≠ '0' := by decide
      simpa using hdigit n hn h
    · rw [Nat.toDigits_of_base_le (by decide) (by omega)]
      -- the first digit is that of the number without its last one
      have hfront := ih (n / 10) (by omega) (by omega)
      rwa [List.head?_append_of_ne_nil _ Nat.toDigits_ne_nil]

theorem wholeNumber_nat (n : Nat) : WholeNumber (toString n).toList := by
  refine ⟨digits_nat n, ?_⟩
  rw [Nat.toString_eq_repr, Nat.toList_repr]
  by_cases h : n = 0
  · left
    rw [h]
    rfl
  · right
    exact head?_toDigits_ne_zero h

/-- The digits of a number spell it: `ofDigits` undoes `toString`. -/
theorem ofDigits_nat (n : Nat) : ofDigits (toString n).toList = n := by
  rw [Nat.toString_eq_repr, Nat.toList_repr]
  exact Nat.ofDigitChars_ten_toDigits

/-- An integer as it is written: a sign if it is negative, and the digits of its size. -/
theorem toList_int (n : Int) :
    (toString n).toList = (if n < 0 then ['-'] else []) ++ (toString n.natAbs).toList := by
  cases n with
  | ofNat m => rfl
  | negSucc m =>
    rw [if_pos (Int.negSucc_lt_zero m)]
    show ("-" ++ toString (m + 1)).toList = _
    rw [String.toList_append]
    rfl

end HybridCompile.Number
