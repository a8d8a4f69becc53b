import HybridCompile.Json.Printer
import HybridCompile.Json.Token
import HybridCompile.Proofs.Text.Numerals

/-!
# HybridCompile — JSON number literals

The number literals of a JSON text, as the grammar of the format has them, part by part: a sign, a
whole number, a fraction, an exponent.

* `NumberLiteral` — the grammar.
* `isNumber_of_literal`, `word?_of_literal` — a word of the grammar is read as a number.
-/

namespace HybridCompile.Json

open Number (isDigit Digits WholeNumber ne_of_kind takeWhile_append_of_head
  dropWhile_append_of_head)

/-- The fraction of a number literal: a point with digits, or nothing. -/
inductive Fraction : List Char → Prop where
  | none : Fraction []
  | point {digits : List Char} (h : Digits digits) : Fraction ('.' :: digits)

/-- The exponent of a number literal: a mark, an optional sign and digits; or nothing. -/
inductive Exponent : List Char → Prop where
  | none : Exponent []
  | power {mark : Char} {sign digits : List Char} (hmark : mark = 'e' ∨ mark = 'E')
      (hsign : sign = [] ∨ sign = ['+'] ∨ sign = ['-']) (h : Digits digits) :
      Exponent (mark :: (sign ++ digits))

/-- A number as JSON writes it: an optional minus sign, a `WholeNumber`, a `Fraction` and an
`Exponent`, in this order. -/
inductive NumberLiteral : List Char → Prop where
  | mk {sign whole fraction exponent : List Char} (hsign : sign = [] ∨ sign = ['-'])
      (hwhole : WholeNumber whole) (hfraction : Fraction fraction) (hexponent : Exponent exponent) :
      NumberLiteral (sign ++ (whole ++ (fraction ++ exponent)))

theorem isWordChar_of_isDigit {c : Char} (h : isDigit c = true) : isWordChar c = true := by
  rw [Number.isDigit_eq] at h
  simp [isWordChar, Char.isAlphanum, h]

/-! ## Numbers are read -/

section Parts

variable {whole fraction exponent : List Char}

/-- A character that does not begin an exponent; the reader takes such characters for the mantissa.
-/
def BeforePower (c : Char) : Prop := (c != 'e' && c != 'E') = true

theorem beforePower_of_isDigit {c : Char} (h : isDigit c = true) : BeforePower c := by
  have he : c ≠ 'e' := ne_of_kind h (by decide)
  have hE : c ≠ 'E' := ne_of_kind h (by decide)
  simp [BeforePower, he, hE]

theorem Fraction.beforePower (h : Fraction fraction) {c : Char} (hc : c ∈ fraction) :
    BeforePower c := by
  cases h with
  | none => cases hc
  | point hdigits =>
    rcases List.mem_cons.mp hc with rfl | hc
    · exact rfl
    · exact beforePower_of_isDigit (hdigits.2 c hc)

theorem Exponent.head (h : Exponent exponent) {c : Char} (hc : exponent.head? = some c) :
    (c != 'e' && c != 'E') = false := by
  cases h with
  | none => cases hc
  | power hmark _ _ =>
    obtain rfl := Option.some.inj hc
    rcases hmark with rfl | rfl <;> decide

theorem Fraction.head (h : Fraction fraction) {c : Char} (hc : fraction.head? = some c) :
    (c != '.') = false := by
  cases h with
  | none => cases hc
  | point _ =>
    obtain rfl := Option.some.inj hc
    decide

/-- An unsigned literal is cut at the mark of its exponent, as a reader that looks for the mark cuts
it: `BeforePower` holds of all that is ahead, and not of the mark. -/
theorem mantissa_eq (hwhole : Digits whole) (hfraction : Fraction fraction)
    (hexponent : Exponent exponent) :
    (whole ++ (fraction ++ exponent)).takeWhile (fun c => c != 'e' && c != 'E') =
        whole ++ fraction ∧
      (whole ++ (fraction ++ exponent)).dropWhile (fun c => c != 'e' && c != 'E') = exponent := by
  have hmantissa : ∀ c ∈ whole ++ fraction, (c != 'e' && c != 'E') = true := by
    intro c hc
    rcases List.mem_append.mp hc with h | h
    · exact beforePower_of_isDigit (hwhole.2 c h)
    · exact hfraction.beforePower h
  rw [← List.append_assoc]
  exact ⟨takeWhile_append_of_head hmantissa fun _ => hexponent.head,
    dropWhile_append_of_head hmantissa fun _ => hexponent.head⟩

theorem whole_eq (hwhole : Digits whole) (hfraction : Fraction fraction) :
    (whole ++ fraction).takeWhile (· != '.') = whole ∧
      (whole ++ fraction).dropWhile (· != '.') = fraction := by
  have hdigits : ∀ c ∈ whole, (c != '.') = true := by
    intro c hc
    have hpoint : c ≠ '.' := ne_of_kind (hwhole.2 c hc) (by decide)
    simp [hpoint]
  exact ⟨takeWhile_append_of_head hdigits fun _ => hfraction.head,
    dropWhile_append_of_head hdigits fun _ => hfraction.head⟩

/-- An exponent of the grammar is read by `exponent?`, with its sign or without one. -/
theorem Exponent.exponent?_isSome {mark : Char} {power : List Char} (h : Exponent (mark :: power)) :
    (Number.Decimal.exponent? power).isSome = true := by
  cases h with
  | power _ hsign hdigits =>
    obtain ⟨n, hn⟩ := Option.isSome_iff_exists.mp hdigits.nat?_isSome
    rcases hsign with rfl | rfl | rfl
    · obtain ⟨c, tail, rfl⟩ := List.exists_cons_of_ne_nil hdigits.1
      have hminus : c ≠ '-' := ne_of_kind (hdigits.2 c List.mem_cons_self) (by decide)
      have hplus : c ≠ '+' := ne_of_kind (hdigits.2 c List.mem_cons_self) (by decide)
      simp [Number.Decimal.exponent?, hminus, hplus, hn]
    · simp [Number.Decimal.exponent?, hn]
    · simp [Number.Decimal.exponent?, hn]

/-- The parts of the grammar, put together, are read by `unsigned?`: `mantissa_eq` and `whole_eq`
find the parts again, and each is read by itself. -/
theorem unsigned?_isSome (negative : Bool) (hwhole : Digits whole) (hfraction : Fraction fraction)
    (hexponent : Exponent exponent) :
    (Number.Decimal.unsigned? negative (whole ++ (fraction ++ exponent))).isSome = true := by
  obtain ⟨hbefore, hafter⟩ := mantissa_eq hwhole hfraction hexponent
  obtain ⟨hfront, hback⟩ := whole_eq hwhole hfraction
  obtain ⟨n, hn⟩ := Option.isSome_iff_exists.mp hwhole.nat?_isSome
  simp only [Number.Decimal.unsigned?, hbefore, hafter, hfront, hback]
  have hpower : ∀ mark power, exponent = mark :: power →
      ∃ shift, Number.Decimal.exponent? power = some shift := by
    rintro mark power rfl
    exact Option.isSome_iff_exists.mp hexponent.exponent?_isSome
  cases hfraction with
  | none =>
    cases exponent with
    | nil => simp [hn]
    | cons mark power =>
      obtain ⟨shift, hshift⟩ := hpower mark power rfl
      simp [hshift, hn]
  | point hdigits =>
    obtain ⟨k, hk⟩ := Option.isSome_iff_exists.mp hdigits.nat?_isSome
    obtain ⟨d, hd⟩ := Option.isSome_iff_exists.mp (hwhole.append hdigits).nat?_isSome
    cases exponent with
    | nil => simp [hk, hd]
    | cons mark power =>
      obtain ⟨shift, hshift⟩ := hpower mark power rfl
      simp [hshift, hk, hd]

end Parts

/-- A literal begins with a digit or with a minus sign, so it is neither empty nor the beginning of
a name. -/
theorem NumberLiteral.exists_head {cs : List Char} (h : NumberLiteral cs) :
    ∃ c tail, cs = c :: tail ∧ (c = '-' ∨ isDigit c = true) := by
  cases h with
  | mk hsign hwhole _ _ =>
    rcases hsign with rfl | rfl
    · obtain ⟨c, tail, hcons⟩ := List.exists_cons_of_ne_nil hwhole.1.1
      have hc : c ∈ c :: tail := List.mem_cons_self
      exact ⟨c, _, by rw [hcons]; rfl, Or.inr (hwhole.1.2 c (hcons ▸ hc))⟩
    · exact ⟨'-', _, rfl, Or.inl rfl⟩

/-- A word of the grammar passes for a number, signed or not. The four parts of `Literal` are what
`isNumber` cuts the word into, first at the exponent and then at the point. -/
theorem isNumber_of_literal {cs : List Char} (h : NumberLiteral cs) : isNumber cs = true := by
  cases h with
  | @mk sign whole fraction exponent hsign hwhole hfraction hexponent =>
    obtain ⟨hdigits, hzero⟩ := hwhole
    obtain ⟨c, tail, hcons⟩ := List.exists_cons_of_ne_nil hdigits.1
    have hc : isDigit c = true := hdigits.2 c (hcons ▸ List.mem_cons_self)
    have hminus : c ≠ '-' := ne_of_kind hc (by decide)
    have hplus : c ≠ '+' := ne_of_kind hc (by decide)
    -- without its sign the literal is read part by part, with or without one in front
    have hisWhole : isWhole whole = true := by
      have hall : whole.all isDigit = true := List.all_eq_true.mpr hdigits.2
      rcases hzero with hone | hnonzero
      · simp [isWhole, hall, hdigits.1, hone]
      · simp [isWhole, hall, hdigits.1, hnonzero]
    obtain ⟨hbefore, -⟩ := mantissa_eq hdigits hfraction hexponent
    obtain ⟨hfront, -⟩ := whole_eq hdigits hfraction
    have hsome : ∀ negative, (Number.Decimal.unsigned? negative
        (whole ++ (fraction ++ exponent))).isSome = true := fun negative =>
      unsigned?_isSome negative hdigits hfraction hexponent
    rcases hsign with rfl | rfl
    · have hdecimal : Number.Decimal.ofChars? (whole ++ (fraction ++ exponent)) =
          Number.Decimal.unsigned? false (whole ++ (fraction ++ exponent)) := by
        rw [hcons, List.cons_append]
        simp [Number.Decimal.ofChars?, hminus, hplus]
      have hhead : (whole ++ (fraction ++ exponent)).head? = some c := by rw [hcons]; rfl
      simp [isNumber, hhead, hminus, hplus, hbefore, hfront, hisWhole, hdecimal, hsome]
    · have hdecimal : Number.Decimal.ofChars? ('-' :: (whole ++ (fraction ++ exponent))) =
          Number.Decimal.unsigned? true (whole ++ (fraction ++ exponent)) := rfl
      simp [isNumber, hbefore, hfront, hisWhole, hdecimal, hsome]

/-- A word of the grammar is read by `word?` as the number that it is, and not as one of the three
names. -/
theorem word?_of_literal {cs : List Char} (h : NumberLiteral cs) :
    word? cs = some (.number (String.ofList cs)) := by
  obtain ⟨c, tail, rfl, hc⟩ := h.exists_head
  have hname : ∀ name, isDigit name = false → name ≠ '-' → c ≠ name := by
    rintro name hname hminus rfl
    rcases hc with rfl | hc
    · exact hminus rfl
    · rw [hc] at hname
      cases hname
  have hn : c ≠ 'n' := hname 'n' (by decide) (by decide)
  have ht : c ≠ 't' := hname 't' (by decide) (by decide)
  have hf : c ≠ 'f' := hname 'f' (by decide) (by decide)
  simp [word?, hn, ht, hf, isNumber_of_literal h]

/-- All characters of a literal belong to a word, so `tokens?` takes it as one. -/
theorem isWordChar_of_literal {cs : List Char} (h : NumberLiteral cs) {c : Char} (hc : c ∈ cs) :
    isWordChar c = true := by
  cases h with
  | mk hsign hwhole hfraction hexponent =>
    simp only [List.mem_append] at hc
    rcases hc with hc | hc | hc | hc
    · rcases hsign with rfl | rfl
      · cases hc
      · rw [List.mem_singleton.mp hc]
        decide
    · exact isWordChar_of_isDigit (hwhole.1.2 c hc)
    · cases hfraction with
      | none => cases hc
      | point hdigits =>
        rcases List.mem_cons.mp hc with rfl | hc
        · decide
        · exact isWordChar_of_isDigit (hdigits.2 c hc)
    · cases hexponent with
      | none => cases hc
      | power hmark hsign hdigits =>
        rcases List.mem_cons.mp hc with rfl | hc
        · rcases hmark with rfl | rfl <;> decide
        rcases List.mem_append.mp hc with hc | hc
        · rcases hsign with rfl | rfl | rfl
          · cases hc
          · rw [List.mem_singleton.mp hc]
            decide
          · rw [List.mem_singleton.mp hc]
            decide
        · exact isWordChar_of_isDigit (hdigits.2 c hc)

end HybridCompile.Json
