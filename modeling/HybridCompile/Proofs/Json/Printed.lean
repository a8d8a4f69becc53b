import HybridCompile.Json.Printer
import HybridCompile.Json.Token

/-!
# HybridCompile — what printed JSON says

A printed string literal reads back as its text.

* `stringRest_escapeChar` — one character of a literal; `stringRest_flatMap` — all of them.
-/

namespace HybridCompile.Json

/-- The four hexadecimal digits that a control character is escaped with are read back by `unit?`.
-/
theorem unit?_escapeUnit : ∀ n < 32, unit? (hexDigit (n / 4096 % 16)) (hexDigit (n / 256 % 16))
    (hexDigit (n / 16 % 16)) (hexDigit (n % 16)) = some n := by
  decide +kernel

theorem ofUnit_toNat {c : Char} (h : c.toNat < 32) : Piece.ofUnit c.toNat = .char c := by
  have hhigh : isHigh c.toNat = false := by
    rw [isHigh, Bool.and_eq_false_iff]
    exact Or.inl (decide_eq_false (by omega))
  have hlow : isLow c.toNat = false := by
    rw [isLow, Bool.and_eq_false_iff]
    exact Or.inl (decide_eq_false (by omega))
  rw [Piece.ofUnit, hhigh, hlow, Char.ofNat_toNat]
  rfl

theorem stringRest_letter {letter c : Char} (hu : letter ≠ 'u') (h : escapeLetter? letter = some c)
    (rest : List Char) :
    stringRest ('\\' :: letter :: rest) =
      (stringRest rest).map fun r => (.char c :: r.1, r.2) := by
  rw [stringRest, h]
  · cases stringRest rest <;> rfl
  · exact fun _ _ _ _ _ heq => absurd heq hu

/-- A character that needs no escape is read as itself. -/
theorem stringRest_plain {c : Char} (hquote : c ≠ '"') (hslash : c ≠ '\\') (hcontrol : 32 ≤ c.toNat)
    (rest : List Char) :
    stringRest (c :: rest) = (stringRest rest).map fun r => (.char c :: r.1, r.2) := by
  have hplain : ¬(c == '\\' || decide (c.toNat < 0x20)) = true := by
    rw [Bool.or_eq_true, beq_iff_eq, decide_eq_true_eq]
    rintro (heq | hlt)
    · exact hslash heq
    · omega
  rw [stringRest, if_neg hplain]
  · exact hquote
  · exact fun _ _ _ _ _ heq => absurd heq hslash
  · exact fun _ _ heq => absurd heq hslash

/-- What one character is written as by `escapeChar` is read back as that character by `stringRest`.
The cases are those of `escapeChar`: seven letters, the other control characters, and the rest. -/
theorem stringRest_escapeChar (c : Char) (rest : List Char) :
    stringRest (escapeChar c ++ rest) =
      (stringRest rest).map fun r => (.char c :: r.1, r.2) := by
  unfold escapeChar
  simp only [beq_iff_eq]
  split
  · next h => rw [h]; exact stringRest_letter (by decide) rfl rest
  split
  · next h => rw [h]; exact stringRest_letter (by decide) rfl rest
  split
  · next h => rw [h]; exact stringRest_letter (by decide) rfl rest
  split
  · next h => rw [h]; exact stringRest_letter (by decide) rfl rest
  split
  · next h => rw [h]; exact stringRest_letter (by decide) rfl rest
  split
  · next h => rw [h]; exact stringRest_letter (by decide) rfl rest
  split
  · next h => rw [h]; exact stringRest_letter (by decide) rfl rest
  split
  · next hcontrol =>
    have hunit := unit?_escapeUnit c.toNat hcontrol
    show stringRest ('\\' :: 'u' :: _ :: _ :: _ :: _ :: rest) = _
    rw [stringRest, hunit]
    show (stringRest rest).bind (fun r => some (Piece.ofUnit c.toNat :: r.1, r.2)) = _
    rw [ofUnit_toNat hcontrol]
    cases stringRest rest <;> rfl
  · next hquote hslash _ _ _ _ _ hcontrol =>
    exact stringRest_plain hquote hslash (Nat.le_of_not_lt hcontrol) rest

/-- The characters of a literal are read back up to the closing quotation mark, and reading stops
behind it. By induction on the characters. -/
theorem stringRest_flatMap (cs rest : List Char) :
    stringRest (cs.flatMap escapeChar ++ '"' :: rest) = some (cs.map Piece.char, rest) := by
  induction cs with
  | nil => rw [List.flatMap_nil, List.nil_append, stringRest]; rfl
  | cons c others ih =>
    rw [List.flatMap_cons, List.append_assoc, stringRest_escapeChar, ih]
    rfl

end HybridCompile.Json
