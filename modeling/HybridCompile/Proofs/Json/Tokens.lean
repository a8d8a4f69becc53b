import HybridCompile.Proofs.Json.Numbers
import HybridCompile.Proofs.Json.Printed

/-!
# HybridCompile — the tokens of printed JSON

A text spells tokens when it is made of them in their order, with blanks between them as one likes.
The text of a value spells the marks and literals of the value.

* `tokensOf` — the tokens of a value.
* `WellFormed` — the values whose numbers are number literals.
* `Spells` — a text is made of tokens; `tokens?_of_spells` — it is then read as them.
* `spells_compact` — the text of a value is made of its tokens.
-/

namespace HybridCompile.Json

/-- A value whose numbers are number literals in the sense of `NumberLiteral`, all through. These
are the values that JSON can express. -/
inductive WellFormed : Json → Prop where
  | null : WellFormed .null
  | bool (b : Bool) : WellFormed (.bool b)
  | number {literal : String} (h : NumberLiteral literal.toList) : WellFormed (.number literal)
  | string (text : Literal) : WellFormed (.string text)
  | array {items : List Json} (h : ∀ item ∈ items, WellFormed item) : WellFormed (.array items)
  | object {members : List (Literal × Json)} (h : ∀ m ∈ members, WellFormed m.2) :
      WellFormed (.object members)

theorem WellFormed.str (s : String) : (str s).WellFormed := .string (some s)

theorem WellFormed.record {members : List (String × Json)} (h : ∀ m ∈ members, m.2.WellFormed) :
    (record members).WellFormed :=
  .object (List.forall_mem_map.mpr h)

mutual

/-- The tokens of a value, in the order of its text. Lists and objects are walked by `tokensOfItems`
and `tokensOfMembers`, as `compactChars` walks them. -/
def tokensOf : Json → List Token
  | .null => [.scalar .null]
  | .bool b => [.scalar (.bool b)]
  | .number literal => [.scalar (.number literal)]
  | .string text => [.scalar (.string text)]
  | .array [] => [.openArray, .closeArray]
  | .array (item :: rest) => .openArray :: (tokensOf item ++ tokensOfItems rest)
  | .object [] => [.openObject, .closeObject]
  | .object ((key, value) :: rest) =>
    .openObject :: .scalar (.string key) :: .colon :: (tokensOf value ++ tokensOfMembers rest)

/-- The tokens of the items after the first, and of the closing bracket. -/
def tokensOfItems : List Json → List Token
  | [] => [.closeArray]
  | item :: rest => .comma :: (tokensOf item ++ tokensOfItems rest)

/-- The tokens of the members after the first, and of the closing brace. -/
def tokensOfMembers : List (Literal × Json) → List Token
  | [] => [.closeObject]
  | (key, value) :: rest =>
    .comma :: .scalar (.string key) :: .colon :: (tokensOf value ++ tokensOfMembers rest)

end

/-! ## One token -/

/-- What may come after a word: nothing, or a character that is no part of a word. -/
def EndsWord (rest : List Char) : Prop := ∀ c, rest.head? = some c → isWordChar c = false

theorem endsWord_cons {c : Char} (h : isWordChar c = false) (rest : List Char) :
    EndsWord (c :: rest) := by
  intro d hd
  obtain rfl := Option.some.inj hd
  exact h

theorem isWordChar_of_isSpace {c : Char} (h : isSpace c = true) : isWordChar c = false := by
  simp only [isSpace, Bool.or_eq_true, beq_iff_eq] at h
  rcases h with ((rfl | rfl) | rfl) | rfl <;> decide

/-- A character of a word is none of the six marks. The marks are gone through one by one. -/
theorem mark?_eq_none {c : Char} (h : isWordChar c = true) : mark? c = none := by
  have hne : ∀ mark, isWordChar mark = false → c ≠ mark := by
    rintro mark hmark rfl
    rw [h] at hmark
    cases hmark
  have hopen : c ≠ '[' := hne _ (by decide)
  have hclose : c ≠ ']' := hne _ (by decide)
  have hopen' : c ≠ '\x7b' := hne _ (by decide)
  have hclose' : c ≠ '\x7d' := hne _ (by decide)
  have hcomma : c ≠ ',' := hne _ (by decide)
  have hcolon : c ≠ ':' := hne _ (by decide)
  simp [mark?, hopen, hclose, hopen', hclose', hcomma, hcolon]

theorem tokens?_space {c : Char} (h : isSpace c = true) (rest : List Char) :
    tokens? (c :: rest) = tokens? rest := by
  rw [tokens?, if_pos h]

theorem tokens?_mark {c : Char} {token : Token} (hspace : isSpace c = false)
    (h : mark? c = some token) (rest : List Char) :
    tokens? (c :: rest) = (tokens? rest).map (token :: ·) := by
  rw [tokens?, hspace, h]
  rfl

/-- A quotation mark begins a literal, which goes as far as `stringRest` reads it. -/
theorem tokens?_quote {pieces : List Piece} {rest after : List Char}
    (h : stringRest rest = some (pieces, after)) :
    tokens? ('"' :: rest) = (tokens? after).map
      (Token.scalar (.string ((Piece.denote pieces).map String.ofList)) :: ·) := by
  rw [tokens?, if_neg (by decide)]
  show (if ('"' == '"') = true then _ else _) = _
  rw [if_pos (by decide)]
  split
  · next r hr =>
    rw [h] at hr
    obtain rfl := Option.some.inj hr
    rfl
  · next hr =>
    rw [h] at hr
    cases hr

/-- A word that ends is one token, the scalar that `word?` makes of it. No character of a word is a
space, a mark or a quote, so `tokens?` comes to its last case. -/
theorem tokens?_word {word rest : List Char} {v : Json} (hne : word ≠ [])
    (hword : ∀ c ∈ word, isWordChar c = true) (hrest : EndsWord rest) (h : word? word = some v) :
    tokens? (word ++ rest) = (tokens? rest).map (.scalar v :: ·) := by
  obtain ⟨c, tail, rfl⟩ := List.exists_cons_of_ne_nil hne
  obtain ⟨hc, htail⟩ := List.forall_mem_cons.mp hword
  have hspace : isSpace c = false := by
    rw [Bool.eq_false_iff]
    intro hspace
    rw [isWordChar_of_isSpace hspace] at hc
    cases hc
  have hquote : (c == '"') = false := by
    rw [beq_eq_false_iff_ne]
    rintro rfl
    exact absurd hc (by decide)
  have htake : (tail ++ rest).takeWhile isWordChar = tail :=
    Number.takeWhile_append_of_head htail hrest
  have hdrop : (tail ++ rest).dropWhile isWordChar = rest :=
    Number.dropWhile_append_of_head htail hrest
  rw [List.cons_append, tokens?, hspace, mark?_eq_none hc]
  simp only [Bool.false_eq_true, if_false, hquote, htake, hdrop, h]

/-! ## Texts made of tokens -/

/-- A text made of tokens, with blanks anywhere between them. A word has to end; all other tokens
tell by themselves where they end. -/
inductive Spells : List Char → List Token → Prop where
  | nil : Spells [] []
  | space {c : Char} {text : List Char} {tokens : List Token} (hc : isSpace c = true)
      (h : Spells text tokens) : Spells (c :: text) tokens
  | mark {c : Char} {token : Token} {text : List Char} {tokens : List Token}
      (hc : mark? c = some token) (h : Spells text tokens) : Spells (c :: text) (token :: tokens)
  | literal (key : Literal) {text : List Char} {tokens : List Token} (h : Spells text tokens) :
      Spells (Json.literal key ++ text) (.scalar (.string key) :: tokens)
  | word {word text : List Char} {v : Json} {tokens : List Token} (hne : word ≠ [])
      (hword : ∀ c ∈ word, isWordChar c = true) (hv : word? word = some v) (hends : EndsWord text)
      (h : Spells text tokens) : Spells (word ++ text) (.scalar v :: tokens)

theorem isSpace_of_mark? {c : Char} {token : Token} (h : mark? c = some token) :
    isSpace c = false := by
  rw [Bool.eq_false_iff]
  intro hspace
  simp only [isSpace, Bool.or_eq_true, beq_iff_eq] at hspace
  rcases hspace with ((rfl | rfl) | rfl) | rfl <;> cases h

theorem denote_map_char (cs : List Char) : Piece.denote (cs.map Piece.char) = some cs := by
  induction cs with
  | nil => rfl
  | cons c cs ih => rw [List.map_cons, Piece.denote, ih]; rfl

/-- A literal is one token, whatever comes after it: with a text by `stringRest_flatMap`, and
without one as the half of a surrogate pair that is written for it. -/
theorem tokens?_literal (key : Literal) (rest : List Char) :
    tokens? (literal key ++ rest) = (tokens? rest).map (.scalar (.string key) :: ·) := by
  cases key with
  | none =>
    have hunit : unit? 'd' '8' '0' '0' = some 0xD800 := by decide
    have hpiece : stringRest (escapeUnit 0xD800 ++ '"' :: rest) = some ([.half 0xD800], rest) := by
      show stringRest ('\\' :: 'u' :: 'd' :: '8' :: '0' :: '0' :: '"' :: rest) = _
      rw [stringRest, hunit, stringRest]
      rfl
    have hquote := tokens?_quote hpiece
    simpa [literal, Piece.denote] using hquote
  | some s =>
    have hquote := tokens?_quote (stringRest_flatMap s.toList rest)
    rw [denote_map_char, Option.map_some, String.ofList_toList] at hquote
    simpa [literal] using hquote

/-- A text made of tokens is read as those tokens. By induction on `Spells`, with one of the lemmas
above for each way to go on. -/
theorem tokens?_of_spells {text : List Char} {tokens : List Token} (h : Spells text tokens) :
    tokens? text = some tokens := by
  induction h with
  | nil => rw [tokens?]
  | space hc _ ih => rw [tokens?_space hc, ih]
  | mark hc _ ih => rw [tokens?_mark (isSpace_of_mark? hc) hc, ih]; rfl
  | literal key _ ih => rw [tokens?_literal, ih]; rfl
  | word hne hword hv hends _ ih => rw [tokens?_word hne hword hends hv, ih]; rfl

/-! ## Values are made of their tokens -/

/-- A text in front of anything that ends a word is made of tokens. Stated with what comes after it,
as the text of a list is the texts of its items one in front of the other. -/
def Made (text : List Char) (tokens : List Token) : Prop :=
  ∀ {rest : List Char} {after : List Token}, Spells rest after → EndsWord rest →
    Spells (text ++ rest) (tokens ++ after)

section Values

variable {v : Json} {items : List Json} {members : List (Literal × Json)}

theorem made_null : Made ['n', 'u', 'l', 'l'] (tokensOf .null) := by
  intro rest after h hends
  rw [tokensOf]
  exact .word (by decide) (List.all_eq_true.mp rfl) rfl hends h

theorem made_true : Made ['t', 'r', 'u', 'e'] (tokensOf (.bool true)) := by
  intro rest after h hends
  rw [tokensOf]
  exact .word (by decide) (List.all_eq_true.mp rfl) rfl hends h

theorem made_false : Made ['f', 'a', 'l', 's', 'e'] (tokensOf (.bool false)) := by
  intro rest after h hends
  rw [tokensOf]
  exact .word (by decide) (List.all_eq_true.mp rfl) rfl hends h

theorem made_number {number : String} (hnumber : NumberLiteral number.toList) :
    Made number.toList (tokensOf (.number number)) := by
  intro rest after h hends
  obtain ⟨c, tail, hcons, -⟩ := hnumber.exists_head
  have hword := word?_of_literal hnumber
  rw [String.ofList_toList] at hword
  rw [tokensOf]
  exact .word (by simp [hcons]) (fun _ => isWordChar_of_literal hnumber) hword hends h

theorem made_string (text : Literal) : Made (literal text) (tokensOf (.string text)) := by
  intro rest after h _
  rw [tokensOf]
  exact .literal text h

theorem endsWord_compactItems (items : List Json) (rest : List Char) :
    EndsWord (compactItems items ++ rest) := by
  cases items with
  | nil => rw [compactItems]; exact endsWord_cons (by decide) _
  | cons item others => rw [compactItems]; exact endsWord_cons (by decide) _

theorem endsWord_compactMembers (members : List (Literal × Json)) (rest : List Char) :
    EndsWord (compactMembers members ++ rest) := by
  cases members with
  | nil => rw [compactMembers]; exact endsWord_cons (by decide) _
  | cons m others => rw [compactMembers]; exact endsWord_cons (by decide) _

/-- If the text of each item is made of its tokens, so is that of all items after the first. By
induction on the items; the rest of the list is what comes after an item. -/
theorem made_compactItems (hitems : ∀ item ∈ items, Made (compactChars item) (tokensOf item)) :
    Made (compactItems items) (tokensOfItems items) := by
  intro rest after h hends
  induction items with
  | nil =>
    rw [compactItems, tokensOfItems]
    exact .mark rfl h
  | cons item others ih =>
    obtain ⟨hitem, hothers⟩ := List.forall_mem_cons.mp hitems
    have htail := hitem (ih hothers) (endsWord_compactItems others rest)
    rw [compactItems, tokensOfItems]
    simpa using Spells.mark (c := ',') rfl htail

/-- The same for the members of an object, with a key and a colon ahead of each value. -/
theorem made_compactMembers (hmembers : ∀ m ∈ members, Made (compactChars m.2) (tokensOf m.2)) :
    Made (compactMembers members) (tokensOfMembers members) := by
  intro rest after h hends
  induction members with
  | nil =>
    rw [compactMembers, tokensOfMembers]
    exact .mark rfl h
  | cons m others ih =>
    obtain ⟨key, value⟩ := m
    obtain ⟨hvalue, hothers⟩ := List.forall_mem_cons.mp hmembers
    have htail := hvalue (ih hothers) (endsWord_compactMembers others rest)
    have hkey := Spells.literal key (.mark (c := ':') rfl htail)
    rw [compactMembers, tokensOfMembers]
    simpa using Spells.mark (c := ',') rfl hkey

/-- The text of a well-formed value is made of its tokens. By induction on `WellFormed`; a list or
an object that is not empty has its first member here and the others in `made_compactItems` and
`made_compactMembers`. -/
theorem made_compact (hv : v.WellFormed) : Made (compactChars v) (tokensOf v) := by
  induction hv with
  | null => rw [compactChars]; exact made_null
  | bool b =>
    cases b with
    | true => rw [compactChars]; exact made_true
    | false => rw [compactChars]; exact made_false
  | number h => rw [compactChars]; exact made_number h
  | string text => rw [compactChars]; exact made_string text
  | @array items _ ih =>
    intro rest after h hends
    cases items with
    | nil =>
      rw [compactChars, tokensOf]
      exact .mark rfl (.mark rfl h)
    | cons item others =>
      obtain ⟨hitem, hothers⟩ := List.forall_mem_cons.mp ih
      have htail := hitem (made_compactItems hothers h hends) (endsWord_compactItems others rest)
      rw [compactChars, tokensOf]
      simpa using Spells.mark (c := '[') rfl htail
  | @object members _ ih =>
    intro rest after h hends
    cases members with
    | nil =>
      rw [compactChars, tokensOf]
      exact .mark rfl (.mark rfl h)
    | cons m others =>
      obtain ⟨key, value⟩ := m
      obtain ⟨hvalue, hothers⟩ := List.forall_mem_cons.mp ih
      have htail := hvalue (made_compactMembers hothers h hends)
        (endsWord_compactMembers others rest)
      have hkey := Spells.literal key (.mark (c := ':') rfl htail)
      rw [compactChars, tokensOf]
      simpa using Spells.mark (c := '\x7b') rfl hkey

theorem spells_of_made {text : List Char} {tokens : List Token} (h : Made text tokens) :
    Spells text tokens := by
  have hall := h .nil (by intro c hc; cases hc)
  rwa [List.append_nil, List.append_nil] at hall

theorem spells_compact (hv : v.WellFormed) : Spells v.compact.toList (tokensOf v) := by
  rw [compact, String.toList_ofList]
  exact spells_of_made (made_compact hv)

end Values

end HybridCompile.Json
