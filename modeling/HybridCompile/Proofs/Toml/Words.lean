import HybridCompile.Toml.Scalar
import HybridCompile.Proofs.Text.Numerals

/-!
# HybridCompile — TOML integers survive being written

An integer is written as a word: a sign, if it is negative, and digits without needless zeros. Such
a word is no date, for want of marks between its digits, and no number with a point or an exponent.

* `integer?_signed` — a sign and digits are read as the number that they spell.
* `word?_int` — an integer is read back from its word.
-/

namespace HybridCompile.Toml

open Number (isDigit Digits WholeNumber ne_of_kind toList_int)

/-! ## Whole numbers -/

/-- Digits without underscores between them are one group. By induction on the digits, a next digit
being no underscore. -/
theorem grouped?_of_digits {cs : List Char} (h : Digits cs) : grouped? isDigit cs = some cs := by
  obtain ⟨hne, hall⟩ := h
  induction cs with
  | nil => exact absurd rfl hne
  | cons c rest ih =>
    obtain ⟨hc, hrest⟩ := List.forall_mem_cons.mp hall
    cases rest with
    | nil => rw [grouped?, if_pos hc]
    | cons d more =>
      have hd : d ≠ '_' := ne_of_kind (hrest d (List.mem_cons_self ..)) (by decide)
      rw [grouped?, if_pos hc, ih (by simp) hrest]
      · rfl
      · exact fun h => absurd h (by simp)
      · exact fun _ h => absurd (List.cons.inj h).1 hd

/-- A `WholeNumber` has no zero in front that `decimalDigits?` would refuse. -/
theorem decimalDigits?_of_wholeNumber {cs : List Char} (h : WholeNumber cs) :
    decimalDigits? cs = some cs := by
  obtain ⟨hdigits, hzero⟩ := h
  rw [decimalDigits?, grouped?_of_digits hdigits]
  show (if _ then none else some cs) = some cs
  rw [if_neg]
  intro hleading
  simp only [Bool.and_eq_true, decide_eq_true_eq, beq_iff_eq] at hleading
  rcases hzero with hone | hhead
  · exact hleading.1 hone
  · exact hhead hleading.2

theorem fit?_toInt (n : Int64) : fit? n.toInt = some n := by
  rw [fit?, if_pos, Int64.ofInt_toInt]
  simp only [Bool.and_eq_true, decide_eq_true_eq]
  exact ⟨n.minValue_le_toInt, n.toInt_le⟩

/-! ## Signed digits -/

/-- Nothing or a minus sign, as `toList_int` puts it in front of the digits. -/
def IsSign (sign : List Char) : Prop := sign = [] ∨ sign = ['-']

section Signed

variable {sign digits : List Char}

theorem isSign_int (n : Int) : IsSign (if n < 0 then ['-'] else []) := by
  split
  · exact Or.inr rfl
  · exact Or.inl rfl

/-- Signed digits are a minus sign or a digit, and then digits only. -/
theorem head_of_signed (hsign : IsSign sign) (hdigits : Digits digits) :
    ∃ c rest, sign ++ digits = c :: rest ∧ (c = '-' ∨ isDigit c = true) ∧
      ∀ d ∈ rest, isDigit d = true := by
  obtain ⟨hne, hall⟩ := hdigits
  rcases hsign with rfl | rfl
  · cases digits with
    | nil => exact absurd rfl hne
    | cons c rest =>
      obtain ⟨hc, hrest⟩ := List.forall_mem_cons.mp hall
      exact ⟨c, rest, rfl, Or.inr hc, hrest⟩
  · exact ⟨'-', digits, rfl, Or.inl rfl, hall⟩

theorem mark?_drop {cs : List Char} {m : Char} (h : m ∉ cs) (k : Nat) :
    mark? m (cs.drop k) = none := by
  rw [mark?, if_neg]
  intro hhead
  exact h (List.mem_of_mem_drop (List.mem_of_head? hhead))

/-- Where a date or a time has digits, so many characters are passed over or there is neither. What
they were does not matter below, so the first one may be a sign. -/
theorem digits?_cons (k : Nat) (c : Char) (cs : List Char) :
    digits? (k + 1) (c :: cs) = none ∨ ∃ n, digits? (k + 1) (c :: cs) = some (n, cs.drop k) := by
  rw [digits?]
  split
  · exact Or.inr ⟨_, rfl⟩
  · exact Or.inl rfl

/-- Digits with whatever in front are no date, for want of the dash after the year. -/
theorem date?_digits {c : Char} {cs : List Char} (h : ∀ d ∈ cs, isDigit d = true) :
    date? (c :: cs) = none := by
  have hmark : '-' ∉ cs := fun hin => ne_of_kind (h _ hin) (by decide) rfl
  rcases digits?_cons 3 c cs with hyear | ⟨n, hyear⟩
  · simp [date?, hyear]
  · simp [date?, hyear, mark?_drop hmark]

/-- Digits with whatever in front are no time, for want of the colon after the hour. -/
theorem time?_digits {c : Char} {cs : List Char} (h : ∀ d ∈ cs, isDigit d = true) :
    time? (c :: cs) = none := by
  have hmark : ':' ∉ cs := fun hin => ne_of_kind (h _ hin) (by decide) rfl
  have hdrop := mark?_drop hmark 1
  rcases digits?_cons 1 c cs with hhour | ⟨n, hhour⟩
  · simp [time?, hhour]
  · rw [time?, hhour, Option.bind_eq_bind, Option.bind_some]
    simp only [hdrop]
    rfl

theorem isDateTime_digits {c : Char} {cs : List Char} (h : ∀ d ∈ cs, isDigit d = true) :
    isDateTime (c :: cs) = false := by
  simp [isDateTime, isDate, date?_digits h, time?_digits h]

/-- The sign is taken off again by `splitSign`, as a digit is no sign. -/
theorem splitSign_append (hsign : IsSign sign) (hdigits : Digits digits) :
    splitSign (sign ++ digits) = (decide (sign = ['-']), digits) := by
  obtain ⟨hne, hall⟩ := hdigits
  rcases hsign with rfl | rfl
  · rw [List.nil_append, splitSign]
    · rfl
    · rintro rest rfl
      exact ne_of_kind (hall _ (List.mem_cons_self ..)) (by decide) rfl
    · rintro rest rfl
      exact ne_of_kind (hall _ (List.mem_cons_self ..)) (by decide) rfl
  · rfl

/-- Digits end only with the text, for every kind `p` of character that digits are of. -/
theorem span_of_digits {p : Char → Bool} (hp : ∀ c, isDigit c = true → p c = true)
    (hdigits : Digits digits) : digits.takeWhile p = digits ∧ digits.dropWhile p = [] := by
  have hfront : ∀ c ∈ digits, p c = true := fun c hc => hp c (hdigits.2 c hc)
  have hend : ∀ c, ([] : List Char).head? = some c → p c = false := fun c hc => nomatch hc
  have htake := Number.takeWhile_append_of_head hfront hend
  have hdrop := Number.dropWhile_append_of_head hfront hend
  rw [List.append_nil] at htake hdrop
  exact ⟨htake, hdrop⟩

/-- Signed digits have neither a point nor an exponent, and are no name of a float. Cutting at
either, as `isFloat` does, leaves them whole. -/
theorem isFloat_signed (hsign : IsSign sign) (hdigits : Digits digits) :
    isFloat (sign ++ digits) = false := by
  have hpower : ∀ c, isDigit c = true → (c != 'e' && c != 'E') = true := by
    intro c hc
    simp [ne_of_kind hc (show isDigit 'e' = false by decide),
      ne_of_kind hc (show isDigit 'E' = false by decide)]
  have hpoint : ∀ c, isDigit c = true → (c != '.') = true := by
    intro c hc
    simp [ne_of_kind hc (show isDigit '.' = false by decide)]
  have hspecial : ¬(digits = ['i', 'n', 'f'] ∨ digits = ['n', 'a', 'n']) := by
    rintro (rfl | rfl)
    · exact absurd (hdigits.2 'i' (by decide)) (by decide)
    · exact absurd (hdigits.2 'n' (by decide)) (by decide)
  rw [isFloat, splitSign_append hsign hdigits]
  obtain ⟨hmantissa, hnoPower⟩ := span_of_digits hpower hdigits
  obtain ⟨hwhole, hnoFraction⟩ := span_of_digits hpoint hdigits
  simp [hspecial, hmantissa, hnoPower, hnoFraction]

/-- A sign and digits are read as the number that they spell, if it has 64 bits. A zero is followed
by nothing, so no other base is meant. -/
theorem integer?_signed (hsign : IsSign sign) (hwhole : WholeNumber digits) :
    integer? (sign ++ digits) =
      fit? (if sign = ['-'] then -(Number.ofDigits digits : Int) else Number.ofDigits digits) := by
  obtain ⟨c, rest, hcons, -, hrest⟩ := head_of_signed hsign hwhole.1
  -- After a zero there is no mark of another base, for there is a digit if anything.
  have hbase : ∀ m, isDigit m = false → ∀ more, sign ++ digits ≠ '0' :: m :: more := by
    intro m hm more heq
    rw [hcons, List.cons.injEq] at heq
    exact ne_of_kind (hrest m (heq.2 ▸ List.mem_cons_self ..)) hm rfl
  rw [integer?, splitSign_append hsign hwhole.1]
  · simp [decimalDigits?_of_wholeNumber hwhole]
  · exact fun more heq => hbase 'x' (by decide) more heq
  · exact fun more heq => hbase 'o' (by decide) more heq
  · exact fun more heq => hbase 'b' (by decide) more heq

end Signed

/-! ## Words -/

/-- The head of an integer is a minus sign or a digit, and digits come after it. -/
theorem exists_head_int (n : Int) :
    ∃ c rest, (toString n).toList = c :: rest ∧ (c = '-' ∨ isDigit c = true) ∧
      ∀ d ∈ rest, isDigit d = true := by
  rw [toList_int]
  exact head_of_signed (isSign_int n) (Number.digits_nat n.natAbs)

theorem isWordChar_of_isDigit {c : Char} (h : isDigit c = true) : isWordChar c = true := by
  rw [Number.isDigit_eq] at h
  simp [isWordChar, Char.isAlphanum, h]

theorem isWordChar_int {n : Int} {c : Char} (hc : c ∈ (toString n).toList) :
    isWordChar c = true := by
  obtain ⟨d, rest, hcons, hd, hrest⟩ := exists_head_int n
  rw [hcons] at hc
  rcases List.mem_cons.mp hc with rfl | hin
  · rcases hd with rfl | hdigit
    · decide
    · exact isWordChar_of_isDigit hdigit
  · exact isWordChar_of_isDigit (hrest c hin)

/-- An integer of 64 bits is read back by `integer?`: `integer?_signed` with the sign and the digits
of `toList_int`. -/
theorem integer?_int (n : Int64) : integer? (toString n.toInt).toList = some n := by
  rw [toList_int, integer?_signed (isSign_int _) (Number.wholeNumber_nat _), Number.ofDigits_nat]
  have hvalue : (if (if n.toInt < 0 then ['-'] else []) = ['-'] then -(n.toInt.natAbs : Int)
      else n.toInt.natAbs) = n.toInt := by
    by_cases hneg : n.toInt < 0
    · simp only [if_pos hneg, if_true]
      omega
    · rw [if_neg hneg, if_neg (by simp)]
      omega
  rw [hvalue, fit?_toInt]

/-- An integer is read back from the word that it is written as, ahead of all else that a word could
be. -/
theorem word?_int (n : Int64) : word? (toString n.toInt).toList = some (.integer n) := by
  obtain ⟨c, rest, hcons, hc, hrest⟩ := exists_head_int n.toInt
  have hletter : ∀ d more, isDigit d = false → d ≠ '-' →
      (toString n.toInt).toList ≠ d :: more := by
    intro d more hd hminus heq
    rw [hcons, List.cons.injEq] at heq
    rcases hc with rfl | hdigit
    · exact hminus heq.1.symm
    · exact ne_of_kind hdigit hd heq.1
  have hdate : isDateTime (toString n.toInt).toList = false := by
    rw [hcons]
    exact isDateTime_digits hrest
  have hfloat : isFloat (toString n.toInt).toList = false := by
    rw [toList_int]
    exact isFloat_signed (isSign_int _) (Number.digits_nat _)
  rw [word?, if_neg (hletter 't' _ (by decide) (by decide)),
    if_neg (hletter 'f' _ (by decide) (by decide)), hdate, hfloat, integer?_int]
  rfl

end HybridCompile.Toml
