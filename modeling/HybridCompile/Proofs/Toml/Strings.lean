import HybridCompile.Toml.Lexeme
import HybridCompile.Toml.Quoting
import HybridCompile.Proofs.Text.Numerals

/-!
# HybridCompile — TOML strings survive being written

A text is written in one of four styles, and is read back from each of them. The two basic styles
may write any text, because they can escape; the two literal ones are chosen only for texts that
they can hold. Between three quotes the danger is a quote that stands next to the closing ones: a
text ends with at most two of them, which the reader takes for the text.

* `ReadsEscapes` — what the readers of both basic styles have in common.
* `multiBasicRest_multiInside`, `multiLiteralRest_append` — texts between three quotes.
* `string?_quote` — a text is read back from what `quote` writes.
-/

namespace HybridCompile.Toml

/-! ## Escapes -/

/-- A reader that reads plain characters as themselves and escapes as what they stand for.
`basicRest` and `multiBasicRest` are two of them, and `escapeChar` writes for both. -/
structure ReadsEscapes (read : Reader (List Char)) : Prop where
  letter {l c : Char} (hc : escapeLetter? l = some c) (rest : List Char) :
    read ('\\' :: l :: rest) = (read rest).map (consFst c)
  unit {a b c d e : Char} (he : hexChar? [a, b, c, d] = some e) (rest : List Char) :
    read ('\\' :: 'u' :: a :: b :: c :: d :: rest) = (read rest).map (consFst e)
  plain {c : Char} (hquote : c ≠ '"') (hslash : c ≠ '\\') (hc : isPlain c = true)
    (rest : List Char) : read (c :: rest) = (read rest).map (consFst c)

theorem ne_of_escapeLetter? {l c : Char} (h : escapeLetter? l = some c) : l ≠ 'u' ∧ l ≠ 'U' := by
  constructor
  · rintro rfl
    cases h
  · rintro rfl
    cases h

/-- Basic strings on one line are read so. Each field is one case of `basicRest`, once the cases
above it are excluded. -/
theorem readsEscapes_basic : ReadsEscapes basicRest where
  letter {l c} hc rest := by
    obtain ⟨hu, hU⟩ := ne_of_escapeLetter? hc
    rw [basicRest, hc]
    · rfl
    · exact fun _ _ _ _ _ h => absurd h hu
    · exact fun _ _ _ _ _ _ _ _ _ h => absurd h hU
  unit {a b c d e} he rest := by
    show (hexChar? [a, b, c, d]).bind _ = _
    rw [he]
    rfl
  plain {c} hquote hslash hc rest := by
    rw [basicRest, if_pos]
    · simp [hslash, hc]
    · exact hquote
    · exact fun _ _ _ _ _ h => absurd h hslash
    · exact fun _ _ _ _ _ _ _ _ _ h => absurd h hslash
    · exact fun _ _ h => absurd h hslash

theorem ne_return_of_isPlain {c : Char} (h : c = '\n' ∨ isPlain c = true) : c ≠ '\r' := by
  rintro rfl
  rcases h with h | h
  · exact absurd h (by decide)
  · exact absurd h (by decide)

/-- Plain characters and line feeds are read as themselves over lines, and so is a quote that does
not begin the closing ones. -/
theorem multiBasicRest_plain {c : Char} (hslash : c ≠ '\\') (hc : c = '\n' ∨ isPlain c = true)
    {cs : List Char} (h : c = '"' → ∀ tail, cs ≠ '"' :: '"' :: tail) :
    multiBasicRest false (c :: cs) = (multiBasicRest false cs).map (consFst c) := by
  rw [multiBasicRest, if_pos]
  · rcases hc with hc | hc
    · simp [hc]
    · simp [hslash, hc]
  · exact fun tail heq => h heq tail
  · exact fun _ _ _ _ _ heq => absurd heq hslash
  · exact fun _ _ _ _ _ _ _ _ _ heq => absurd heq hslash
  · exact fun _ _ heq => absurd heq hslash
  · exact fun heq => absurd heq (by decide)
  · exact fun heq => absurd heq (by decide)
  · exact fun heq => absurd heq (by decide)
  · exact fun _ heq => absurd heq (by decide)
  · exact fun _ _ heq => absurd heq (ne_return_of_isPlain hc)

/-- Basic strings over lines are read so, too. -/
theorem readsEscapes_multiBasic : ReadsEscapes (multiBasicRest false) where
  letter {l c} hc rest := by
    obtain ⟨hu, hU⟩ := ne_of_escapeLetter? hc
    rw [multiBasicRest, hc]
    · exact fun _ _ _ _ _ h => absurd h hu
    · exact fun _ _ _ _ _ _ _ _ _ h => absurd h hU
  unit {a b c d e} he rest := by
    show (hexChar? [a, b, c, d]).bind _ = _
    rw [he]
    rfl
  plain hquote hslash hc _ := multiBasicRest_plain hslash (Or.inr hc) fun h => absurd h hquote

theorem hexChar?_hexDigit : ∀ n < 128, hexChar? ['0', '0', hexDigit (n / 16), hexDigit (n % 16)] =
    some (Char.ofNat n) := by
  decide +kernel

theorem isPlain_of_not_control {c : Char}
    (h : ¬(decide (c.toNat < 0x20) || c.toNat == 0x7F) = true) : isPlain c = true := by
  simp only [Bool.or_eq_true, decide_eq_true_eq, beq_iff_eq, not_or] at h
  have hlow : 0x20 ≤ c.toNat := by omega
  simp [isPlain, hlow, h.2]

/-- A character that is written by `escapeChar` is read back by any reader with `ReadsEscapes`. The
cases are those of `escapeChar`: the letters, the numbers, and the characters that stand for
themselves. -/
theorem ReadsEscapes.escapeChar {read : Reader (List Char)} (h : ReadsEscapes read) {c : Char}
    (hquote : c ≠ '"') (rest : List Char) :
    read (escapeChar c ++ rest) = (read rest).map (consFst c) := by
  unfold Toml.escapeChar
  simp only [beq_iff_eq]
  split
  · next hc => rw [hc]; exact h.letter rfl rest
  next hslash =>
  split
  · next hc => rw [hc]; exact h.letter rfl rest
  split
  · next hc => rw [hc]; exact h.letter rfl rest
  split
  · next hc => rw [hc]; exact h.letter rfl rest
  split
  · next hc => rw [hc]; exact h.letter rfl rest
  split
  · next hc => rw [hc]; exact h.letter rfl rest
  split
  · next hcontrol =>
    have hsmall : c.toNat < 128 := by
      simp only [Bool.or_eq_true, decide_eq_true_eq, beq_iff_eq] at hcontrol
      omega
    have hunit := hexChar?_hexDigit c.toNat hsmall
    rw [Char.ofNat_toNat] at hunit
    exact h.unit hunit rest
  · next hplain => exact h.plain hquote hslash (isPlain_of_not_control hplain) rest

/-! ## Between single quotes -/

/-- Any text is read back from a basic string, up to the closing quote. By induction on its
characters; the quote is written as an escape. -/
theorem basicRest_basicInside (cs rest : List Char) :
    basicRest (basicInside cs ++ '"' :: rest) = some (cs, rest) := by
  induction cs with
  | nil => rfl
  | cons c others ih =>
    have hinside : basicInside (c :: others) ++ '"' :: rest =
        (if c == '"' then ['\\', '"'] else escapeChar c) ++ (basicInside others ++ '"' :: rest) := by
      simp [basicInside]
    rw [hinside]
    by_cases hquote : c = '"'
    · subst hquote
      show basicRest ('\\' :: '"' :: (basicInside others ++ '"' :: rest)) = _
      rw [readsEscapes_basic.letter rfl, ih]
      rfl
    · rw [if_neg (by simp [hquote]), readsEscapes_basic.escapeChar hquote, ih]
      rfl

/-- A text without controls, line feeds and single quotes is read back from a literal string. By
induction on its characters. -/
theorem literalRest_append {cs : List Char} (hplain : ∀ c ∈ cs, isPlain c = true ∧ c ≠ '\'')
    (rest : List Char) : literalRest (cs ++ '\'' :: rest) = some (cs, rest) := by
  induction cs with
  | nil => rfl
  | cons c others ih =>
    obtain ⟨⟨hc, hquote⟩, hothers⟩ := List.forall_mem_cons.mp hplain
    rw [List.cons_append, literalRest, if_pos hc, ih hothers]
    · rfl
    · exact hquote

/-! ## Between three quotes -/

/-- Quotes next to the closing ones belong to the text, if there are at most two. -/
theorem closing?_replicate {q : Char} {n : Nat} (hn : n ≤ 2) {rest : List Char}
    (hrest : rest.head? ≠ some q) :
    closing? q (List.replicate n q ++ rest) = some (List.replicate n q, rest) := by
  have hfront : ∀ c ∈ List.replicate n q, (c == q) = true := by
    intro c hc
    simp [List.eq_of_mem_replicate hc]
  have hend : ∀ c, rest.head? = some c → (c == q) = false := by
    intro c hc
    rw [beq_eq_false_iff_ne]
    rintro rfl
    exact hrest hc
  rw [closing?, Number.takeWhile_append_of_head hfront hend,
    Number.dropWhile_append_of_head hfront hend, List.length_replicate, if_pos hn]

/-- The three quotes at the end of a text, with what comes after them. -/
abbrev ended (q : Char) (rest : List Char) : List Char := q :: q :: q :: rest

section MultiBasic

variable {rest : List Char}

theorem multiInside_quote {run : Nat} (hrun : run < 2) (cs : List Char) :
    multiInside run ('"' :: cs) = '"' :: multiInside (run + 1) cs :=
  if_pos hrun

theorem multiInside_full {run : Nat} (hrun : ¬run < 2) (cs : List Char) :
    multiInside run ('"' :: cs) = '\\' :: '"' :: multiInside 0 cs :=
  if_neg hrun

theorem multiInside_feed (run : Nat) (cs : List Char) :
    multiInside run ('\n' :: cs) = '\n' :: multiInside 0 cs :=
  rfl

theorem multiInside_other {run : Nat} {c : Char} (hquote : c ≠ '"') (hfeed : c ≠ '\n')
    (cs : List Char) : multiInside run (c :: cs) = escapeChar c ++ multiInside 0 cs := by
  rw [multiInside]
  · exact hquote
  · exact hfeed

/-- What is written for a character other than a quote does not begin with one, nor with an end of a
line that the text does not have. -/
theorem head?_escapeChar {c : Char} (hquote : c ≠ '"') (rest : List Char) :
    ∃ d, (escapeChar c ++ rest).head? = some d ∧ d ≠ '"' ∧ d ≠ '\r' ∧ (d = '\n' → c = '\n') := by
  unfold escapeChar
  simp only [beq_iff_eq]
  split_ifs with h₁ h₂ h₃ h₄ h₅ h₆ h₇
  all_goals first
    | exact ⟨'\\', rfl, by decide, by decide, by intro h; exact absurd h (by decide)⟩
    | exact ⟨c, rfl, hquote, h₆, id⟩

/-- Unless it is a quote that may stand, a character is written with something else in front. -/
theorem head?_multiInside (run : Nat) (c : Char) (h : c = '"' → ¬run < 2) (cs rest : List Char) :
    ∃ d, (multiInside run (c :: cs) ++ rest).head? = some d ∧ d ≠ '"' ∧ d ≠ '\r' ∧
      (d = '\n' → c = '\n') := by
  by_cases hquote : c = '"'
  · subst hquote
    rw [multiInside_full (h rfl)]
    exact ⟨'\\', rfl, by decide, by decide, by intro h; exact absurd h (by decide)⟩
  by_cases hfeed : c = '\n'
  · subst hfeed
    rw [multiInside_feed]
    exact ⟨'\n', rfl, by decide, by decide, fun _ => rfl⟩
  · rw [multiInside_other hquote hfeed, List.append_assoc]
    exact head?_escapeChar hquote _

/-- After a quote, two more stand in front only near the end of the text: with one of them or none
left to write, the others are the closing ones. -/
theorem eq_of_multiInside_eq_quotes {run : Nat} (hrun : 1 ≤ run) {cs tail : List Char}
    (h : multiInside run cs ++ ended '"' rest = '"' :: '"' :: tail) :
    cs = [] ∨ run = 1 ∧ cs = ['"'] := by
  cases cs with
  | nil => exact Or.inl rfl
  | cons c others =>
    by_cases hstands : c = '"' ∧ run < 2
    · obtain ⟨rfl, hlt⟩ := hstands
      rw [multiInside_quote hlt, List.cons_append, List.cons.injEq] at h
      cases others with
      | nil => exact Or.inr ⟨by omega, rfl⟩
      | cons d more =>
        obtain ⟨e, he, hne, -⟩ := head?_multiInside (run + 1) d (by omega) more
          (ended '"' rest)
        rw [h.2] at he
        exact absurd (Option.some.inj he).symm hne
    · obtain ⟨e, he, hne, -⟩ := head?_multiInside run c
        (fun hc hlt => hstands ⟨hc, hlt⟩) others (ended '"' rest)
      rw [h] at he
      exact absurd (Option.some.inj he).symm hne

theorem multiBasicRest_ended (hrest : rest.head? ≠ some '"') {n : Nat} (hn : n ≤ 2) :
    multiBasicRest false (ended '"' (List.replicate n '"' ++ rest)) =
      some (List.replicate n '"', rest) :=
  closing?_replicate hn hrest

/-- Any text is read back from a basic string over lines. By induction on its characters, for every
number `run` of quotes before them, which decides which quotes are escaped and not what is read
back. -/
theorem multiBasicRest_multiInside (hrest : rest.head? ≠ some '"') (run : Nat) (cs : List Char) :
    multiBasicRest false (multiInside run cs ++ ended '"' rest) = some (cs, rest) := by
  -- The quotes before decide which ones are escaped, and not what is read back.
  induction cs generalizing run with
  | nil => exact multiBasicRest_ended hrest (n := 0) (by omega)
  | cons c others ih =>
    by_cases hquote : c = '"'
    · subst hquote
      by_cases hrun : run < 2
      · rw [multiInside_quote hrun, List.cons_append]
        -- One or two quotes at the very end are read together with the closing ones.
        by_cases hlast : others = []
        · rw [hlast]
          exact multiBasicRest_ended hrest (n := 1) (by omega)
        by_cases hsecond : run + 1 = 1 ∧ others = ['"']
        · obtain ⟨hzero, rfl⟩ := hsecond
          rw [hzero]
          exact multiBasicRest_ended hrest (n := 2) (by omega)
        rw [multiBasicRest_plain (by decide) (Or.inr (by decide)), ih]
        · rfl
        · intro _ tail htail
          rcases eq_of_multiInside_eq_quotes (by omega) htail with h | h
          · exact hlast h
          · exact hsecond h
      · rw [multiInside_full hrun, List.cons_append, List.cons_append,
          readsEscapes_multiBasic.letter rfl, ih]
        rfl
    by_cases hfeed : c = '\n'
    · subst hfeed
      rw [multiInside_feed, List.cons_append, multiBasicRest_plain (by decide) (Or.inl rfl), ih]
      · rfl
      · exact fun h => absurd h (by decide)
    · rw [multiInside_other hquote hfeed, List.append_assoc,
        readsEscapes_multiBasic.escapeChar hquote, ih]
      rfl

end MultiBasic

section MultiLiteral

variable {rest : List Char}

/-- A run that has begun counts, by induction on what follows. -/
theorem le_longestRun (c : Char) (run : Nat) (cs : List Char) : run ≤ longestRun c run cs := by
  induction cs generalizing run with
  | nil => simp [longestRun]
  | cons d others ih =>
    rw [longestRun]
    split
    · exact Nat.le_trans (Nat.le_succ run) (ih (run + 1))
    · exact Nat.le_max_left _ _

theorem longestRun_self (c : Char) (run : Nat) (cs : List Char) :
    longestRun c run (c :: cs) = longestRun c (run + 1) cs := by
  rw [longestRun, if_pos (by simp)]

/-- A text whose longest run of single quotes is short has two of them in front of it only near its
end. -/
theorem eq_of_append_eq_quotes {run : Nat} (hrun : 1 ≤ run) {cs tail : List Char}
    (hlong : longestRun '\'' run cs ≤ 2) (h : cs ++ ended '\'' rest = '\'' :: '\'' :: tail) :
    cs = [] ∨ run = 1 ∧ cs = ['\''] := by
  cases cs with
  | nil => exact Or.inl rfl
  | cons c others =>
    obtain ⟨rfl, htail⟩ := List.cons.inj h
    rw [longestRun_self] at hlong
    cases others with
    | nil =>
      rw [longestRun] at hlong
      exact Or.inr ⟨by omega, rfl⟩
    | cons d more =>
      obtain ⟨rfl, -⟩ := List.cons.inj htail
      rw [longestRun_self] at hlong
      have hle := le_longestRun '\'' (run + 1 + 1) more
      omega

theorem multiLiteralRest_ended (hrest : rest.head? ≠ some '\'') {n : Nat} (hn : n ≤ 2) :
    multiLiteralRest (ended '\'' (List.replicate n '\'' ++ rest)) =
      some (List.replicate n '\'', rest) :=
  closing?_replicate hn hrest

/-- Plain characters and line feeds are read as themselves, and so is a quote that does not begin
the closing ones. -/
theorem multiLiteralRest_plain {c : Char} (hc : c = '\n' ∨ isPlain c = true) {cs : List Char}
    (h : c = '\'' → ∀ tail, cs ≠ '\'' :: '\'' :: tail) :
    multiLiteralRest (c :: cs) = (multiLiteralRest cs).map (consFst c) := by
  rw [multiLiteralRest, if_pos]
  · rcases hc with hc | hc
    · simp [hc]
    · simp [hc]
  · exact fun _ heq => absurd heq (ne_return_of_isPlain hc)
  · exact fun tail heq => h heq tail

/-- A text without controls and with at most two single quotes in a row is read back from a literal
string over lines. By induction on its characters, with the quotes that stand before them as `run`.
-/
theorem multiLiteralRest_append (hrest : rest.head? ≠ some '\'') {run : Nat} {cs : List Char}
    (hplain : ∀ c ∈ cs, c = '\n' ∨ isPlain c = true) (hlong : longestRun '\'' run cs ≤ 2) :
    multiLiteralRest (cs ++ ended '\'' rest) = some (cs, rest) := by
  induction cs generalizing run with
  | nil => exact multiLiteralRest_ended hrest (n := 0) (by omega)
  | cons c others ih =>
    obtain ⟨hc, hothers⟩ := List.forall_mem_cons.mp hplain
    by_cases hquote : c = '\''
    · subst hquote
      rw [longestRun_self] at hlong
      by_cases hlast : others = []
      · rw [hlast]
        exact multiLiteralRest_ended hrest (n := 1) (by omega)
      by_cases hsecond : run + 1 = 1 ∧ others = ['\'']
      · obtain ⟨-, rfl⟩ := hsecond
        exact multiLiteralRest_ended hrest (n := 2) (by omega)
      rw [List.cons_append, multiLiteralRest_plain hc, ih hothers hlong]
      · rfl
      · intro _ tail htail
        rcases eq_of_append_eq_quotes (by omega) hlong htail with h | h
        · exact hlast h
        · exact hsecond h
    · have hlong' : longestRun '\'' 0 others ≤ 2 := by
        rw [longestRun, if_neg (by simp [hquote])] at hlong
        exact Nat.le_trans (Nat.le_max_right _ _) hlong
      rw [List.cons_append, multiLiteralRest_plain hc fun h => absurd h hquote,
        ih hothers hlong']
      rfl

end MultiLiteral

/-! ## All four styles -/

theorem skipFirstFeed_of_head {cs : List Char} (hfeed : cs.head? ≠ some '\n')
    (hreturn : cs.head? ≠ some '\r') : skipFirstFeed cs = cs := by
  rw [skipFirstFeed]
  · rintro tail rfl
    exact hfeed rfl
  · rintro tail rfl
    exact hreturn rfl

/-- A line end at the opening belongs to the literal and not to the text. It is written where the
text has line ends, so that one at its beginning is not taken for it. -/
theorem skipFirstFeed_opening {cs inside : List Char}
    (h : '\n' ∉ cs → inside.head? ≠ some '\n' ∧ inside.head? ≠ some '\r') :
    skipFirstFeed (opening cs ++ inside) = inside := by
  rw [opening]
  split
  · rw [List.cons_append, List.nil_append, skipFirstFeed]
  · next hfeed =>
    obtain ⟨hn, hr⟩ := h (by simpa using hfeed)
    rw [List.nil_append, skipFirstFeed_of_head hn hr]

/-- A character that needs no escape may stand for itself in all styles, or is a line feed. The tab
is apart: it is a control character and needs no escape. -/
theorem isPlain_of_not_needsEscape {c : Char} (h : needsEscape c = false) :
    c = '\n' ∨ isPlain c = true := by
  by_cases hfeed : c = '\n'
  · exact Or.inl hfeed
  by_cases htab : c = '\t'
  · right
    rw [htab]
    decide
  · right
    simp only [needsEscape, Bool.or_eq_false_iff, Bool.and_eq_false_iff, decide_eq_false_iff_not,
      bne_eq_false_iff_eq, beq_eq_false_iff_ne] at h
    refine isPlain_of_not_control ?_
    simp only [Bool.or_eq_true, decide_eq_true_eq, beq_iff_eq, not_or]
    refine ⟨?_, h.2⟩
    rcases h.1 with (hlow | htab') | hfeed'
    · exact hlow
    · exact absurd htab' htab
    · exact absurd hfeed' hfeed

/-- A text in which the longest run of a character is none does not have it. By induction on the
text. -/
theorem not_mem_of_longestRun {c : Char} {cs : List Char} (h : longestRun c 0 cs = 0) : c ∉ cs := by
  induction cs with
  | nil => exact List.not_mem_nil
  | cons d others ih =>
    intro hc
    by_cases hd : d = c
    · subst hd
      rw [longestRun_self] at h
      have hle := le_longestRun d (0 + 1) others
      omega
    · rw [longestRun, if_neg (by simp [hd]), Nat.max_eq_zero_iff] at h
      rcases List.mem_cons.mp hc with heq | hin
      · exact hd heq.symm
      · exact ih h.2 hin

theorem string?_basic {inside : List Char} (h : ∀ tail, inside ≠ '"' :: '"' :: tail) :
    string? ('"' :: inside) = basicRest inside := by
  rw [string?]
  exact h

theorem string?_literal {inside : List Char} (h : ∀ tail, inside ≠ '\'' :: '\'' :: tail) :
    string? ('\'' :: inside) = literalRest inside := by
  rw [string?]
  exact h

/-- The inside of a basic string does not begin with a quote, so its opening quote is not taken for
three. -/
theorem head?_basicInside (c : Char) (cs rest : List Char) :
    (basicInside (c :: cs) ++ rest).head? ≠ some '"' := by
  intro h
  have hinside : basicInside (c :: cs) ++ rest =
      (if c == '"' then ['\\', '"'] else escapeChar c) ++ (basicInside cs ++ rest) := by
    simp [basicInside]
  rw [hinside] at h
  by_cases hquote : c = '"'
  · subst hquote
    exact absurd h (by simp)
  · rw [if_neg (by simp [hquote])] at h
    obtain ⟨d, hd, hne, -⟩ := head?_escapeChar hquote (basicInside cs ++ rest)
    rw [h] at hd
    exact hne (Option.some.inj hd).symm

/-- A text is read back from its basic string. Where it is empty, the two quotes are no opening of
three, as no quote comes after them. -/
theorem string?_basicInside (cs : List Char) {rest : List Char}
    (hrest : rest.head? ≠ some '"') :
    string? ('"' :: (basicInside cs ++ '"' :: rest)) = some (cs, rest) := by
  rw [string?_basic, basicRest_basicInside]
  intro tail h
  cases cs with
  | nil =>
    obtain ⟨-, hhead⟩ := List.cons.inj h
    rw [hhead] at hrest
    exact hrest rfl
  | cons c others =>
    apply head?_basicInside c others ('"' :: rest)
    rw [h]
    rfl

/-- A text is read back from its basic string over lines. A feed right after the quotes would be
taken off, so the first character of what is written must not look like one. -/
theorem string?_multiInside (cs : List Char) {rest : List Char} (hrest : rest.head? ≠ some '"') :
    string? ('"' :: '"' :: '"' :: (opening cs ++ (multiInside 0 cs ++ ended '"' rest))) =
      some (cs, rest) := by
  rw [string?, skipFirstFeed_opening, multiBasicRest_multiInside hrest]
  intro hfeed
  cases cs with
  | nil => exact ⟨by simp [multiInside], by simp [multiInside]⟩
  | cons c others =>
    by_cases hquote : c = '"'
    · subst hquote
      rw [multiInside_quote (by omega)]
      exact ⟨by simp, by simp⟩
    · obtain ⟨d, hd, -, hreturn, hn⟩ := head?_multiInside 0 c
        (fun h => absurd h hquote) others (ended '"' rest)
      rw [hd]
      constructor
      · intro h
        have hc := hn (Option.some.inj h)
        subst hc
        exact hfeed (List.mem_cons_self ..)
      · intro h
        exact hreturn (Option.some.inj h)

/-- A text that a literal string can hold is read back from it. -/
theorem string?_literalInside {cs : List Char} (hplain : ∀ c ∈ cs, isPlain c = true ∧ c ≠ '\'')
    {rest : List Char} (hrest : rest.head? ≠ some '\'') :
    string? ('\'' :: (cs ++ '\'' :: rest)) = some (cs, rest) := by
  rw [string?_literal, literalRest_append hplain]
  intro tail h
  cases cs with
  | nil =>
    obtain ⟨-, hhead⟩ := List.cons.inj h
    rw [hhead] at hrest
    exact hrest rfl
  | cons c others =>
    obtain ⟨hc, -⟩ := List.cons.inj h
    exact (hplain c (List.mem_cons_self ..)).2 hc

/-- A text that a literal string over lines can hold is read back from it, with the same care for
its first character as `string?_multiInside`. -/
theorem string?_multiLiteralInside {cs : List Char}
    (hplain : ∀ c ∈ cs, c = '\n' ∨ isPlain c = true) (hlong : longestRun '\'' 0 cs ≤ 2)
    {rest : List Char} (hrest : rest.head? ≠ some '\'') :
    string? ('\'' :: '\'' :: '\'' :: (opening cs ++ (cs ++ ended '\'' rest))) =
      some (cs, rest) := by
  rw [string?, skipFirstFeed_opening, multiLiteralRest_append hrest hplain hlong]
  intro hfeed
  cases cs with
  | nil => exact ⟨by simp, by simp⟩
  | cons c others =>
    constructor
    · intro h
      have hc := Option.some.inj h
      subst hc
      exact hfeed (List.mem_cons_self ..)
    · intro h
      exact ne_return_of_isPlain (hplain c (List.mem_cons_self ..)) (Option.some.inj h)

theorem of_chooseStyle_literal {cs : List Char} (h : chooseStyle cs = .literal) :
    cs.any needsEscape = false ∧ longestRun '\'' 0 cs = 0 ∧ '\n' ∉ cs := by
  rw [chooseStyle] at h
  split_ifs at h with hbasic hliteral
  simp only [Bool.and_eq_true, Bool.not_eq_true', decide_eq_true_eq] at hliteral
  exact ⟨hliteral.1.1, hliteral.1.2, by simpa using hliteral.2⟩

theorem of_chooseStyle_multiLiteral {cs : List Char} (h : chooseStyle cs = .multiLiteral) :
    cs.any needsEscape = false ∧ longestRun '\'' 0 cs ≤ 2 := by
  rw [chooseStyle] at h
  split_ifs at h with hbasic hliteral hmulti hmultiLiteral
  simp only [Bool.and_eq_true, Bool.not_eq_true', decide_eq_true_eq] at hmultiLiteral
  exact hmultiLiteral

theorem isPlain_of_mem {cs : List Char} (h : cs.any needsEscape = false) {c : Char} (hc : c ∈ cs) :
    c = '\n' ∨ isPlain c = true := by
  rw [List.any_eq_false] at h
  exact isPlain_of_not_needsEscape (Bool.eq_false_iff.mpr (h c hc))

/-- A text is read back from the literal that `quote` writes for it, where no quote comes after
that. The cases are the four styles of `chooseStyle`. -/
theorem string?_quote (cs : List Char) {rest : List Char} (hdouble : rest.head? ≠ some '"')
    (hsingle : rest.head? ≠ some '\'') : string? (quote cs ++ rest) = some (cs, rest) := by
  rw [quote]
  cases hstyle : chooseStyle cs with
  | basic =>
    show string? ('"' :: (basicInside cs ++ ['"']) ++ rest) = _
    rw [List.cons_append, List.append_assoc]
    exact string?_basicInside cs hdouble
  | literal =>
    obtain ⟨hcontrol, hsingles, hfeed⟩ := of_chooseStyle_literal hstyle
    show string? ('\'' :: (cs ++ ['\'']) ++ rest) = _
    rw [List.cons_append, List.append_assoc]
    apply string?_literalInside _ hsingle
    intro c hc
    constructor
    · rcases isPlain_of_mem hcontrol hc with rfl | hp
      · exact absurd hc hfeed
      · exact hp
    · rintro rfl
      exact not_mem_of_longestRun hsingles hc
  | multiBasic =>
    show string? ('"' :: '"' :: '"' :: (opening cs ++ multiInside 0 cs ++ ['"', '"', '"']) ++ rest)
      = _
    rw [List.cons_append, List.cons_append, List.cons_append, List.append_assoc, List.append_assoc]
    exact string?_multiInside cs hdouble
  | multiLiteral =>
    obtain ⟨hcontrol, hsingles⟩ := of_chooseStyle_multiLiteral hstyle
    show string? ('\'' :: '\'' :: '\'' :: (opening cs ++ cs ++ ['\'', '\'', '\'']) ++ rest) = _
    rw [List.cons_append, List.cons_append, List.cons_append, List.append_assoc, List.append_assoc]
    exact string?_multiLiteralInside (fun c hc => isPlain_of_mem hcontrol hc) hsingles hsingle

end HybridCompile.Toml
