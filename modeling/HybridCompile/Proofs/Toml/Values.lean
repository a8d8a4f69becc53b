import HybridCompile.Toml.Parser
import HybridCompile.Toml.Printer
import HybridCompile.Proofs.Toml.Strings
import HybridCompile.Proofs.Toml.Words

/-!
# HybridCompile — TOML values survive being written

A value is read back where a comma, a closing bracket or the end of the line comes after it. That
is enough for arrays too, because each item that is written has one of these after it, whether the
array stands on one line or on several.

* `Value.Writable` — values of texts, integers, booleans, and arrays up to a depth.
* `ReadBack` — a value is told from what comes after it, and taken back.
* `Value.Writable.readBack` — values that can be written are read back.
-/

namespace HybridCompile.Toml

open Number (ne_of_kind not_mem_of_kind)

/-! ## Values in a text -/

/-- What may come right after a value: a comma, a closing bracket or the end of the line. -/
def endsValue (c : Char) : Bool := c == ',' || c == ']' || c == '\n'

/-- A text before which a value ends: it begins with a comma, a closing bracket or the end of the
line, as `endsValue` has it. -/
def Follows (rest : List Char) : Prop := ∃ c, rest.head? = some c ∧ endsValue c = true

theorem follows_cons {c : Char} (h : endsValue c = true) (rest : List Char) : Follows (c :: rest) :=
  ⟨c, rfl, h⟩

/-- How a value that can be written begins. -/
def startsValue (c : Char) : Bool := isWordChar c || c == '"' || c == '\'' || c == '['

/-- A value made of texts, integers, booleans, and arrays that nest at most `depth` deep. These are
the values that requests and configurations consist of. -/
inductive Value.Writable : (depth : Nat) → Value → Prop where
  | text {depth : Nat} (s : String) : Writable depth (.text s)
  | integer {depth : Nat} (n : Int64) : Writable depth (.integer n)
  | boolean {depth : Nat} (b : Bool) : Writable depth (.boolean b)
  | array {depth : Nat} {items : List Value} (h : ∀ item ∈ items, Writable depth item) :
    Writable (depth + 1) (.array items)

section Scalars

variable {rest : List Char}

theorem Follows.head?_ne (h : Follows rest) {c : Char} (hc : endsValue c = false) :
    rest.head? ≠ some c := by
  obtain ⟨d, hhead, hd⟩ := h
  rw [hhead]
  intro heq
  exact ne_of_kind hd hc (Option.some.inj heq)

theorem isWordChar_of_endsValue {c : Char} (h : endsValue c = true) : isWordChar c = false := by
  simp only [endsValue, Bool.or_eq_true, beq_iff_eq] at h
  rcases h with (rfl | rfl) | rfl
  · decide
  · decide
  · decide

/-- A word is read as the value that `word?` makes of it, where a value may end. -/
theorem scalar?_append {word : List Char} {v : Value} (hword : ∀ c ∈ word, isWordChar c = true)
    (hv : word? word = some v) (hrest : Follows rest) : scalar? (word ++ rest) = some (v, rest) := by
  obtain ⟨c, hhead, hc⟩ := hrest
  have hend : ∀ d, rest.head? = some d → isWordChar d = false := by
    intro d hd
    rw [hhead] at hd
    exact isWordChar_of_endsValue (Option.some.inj hd ▸ hc)
  simp only [scalar?]
  rw [Number.takeWhile_append_of_head hword hend, Number.dropWhile_append_of_head hword hend]
  split
  · exact absurd (Option.some.inj hhead ▸ hc) (by decide)
  · rw [hv]
    rfl

/-- A value that begins with a character of a word is a word: it is none of the brackets and quotes
that the cases of `value?` begin with. -/
theorem value?_word (depth : Nat) {c : Char} (hc : isWordChar c = true) :
    value? depth (c :: rest) = scalar? (c :: rest) := by
  have hne : ∀ d, isWordChar d = false → c ≠ d := fun d => ne_of_kind hc
  cases depth with
  | zero =>
    simp only [value?]
    split
    · next h => exact absurd (List.cons.inj h).1 (hne '"' (by decide))
    · next h => exact absurd (List.cons.inj h).1 (hne '\'' (by decide))
    · rfl
  | succ depth =>
    simp only [value?]
    split
    · next h => exact absurd (List.cons.inj h).1 (hne '[' (by decide))
    · next h => exact absurd (List.cons.inj h).1 (hne '\x7b' (by decide))
    · next h => exact absurd (List.cons.inj h).1 (hne '"' (by decide))
    · next h => exact absurd (List.cons.inj h).1 (hne '\'' (by decide))
    · rfl

/-- A value that begins with a quote is a string. -/
theorem value?_quoted (depth : Nat) {q : Char} (hq : q = '"' ∨ q = '\'') :
    value? depth (q :: rest) =
      (string? (q :: rest)).map fun r => (.text (String.ofList r.1), r.2) := by
  rcases hq with rfl | rfl
  · cases depth with
    | zero => rfl
    | succ depth => rfl
  · cases depth with
    | zero => rfl
    | succ depth => rfl

theorem exists_quote (cs : List Char) :
    ∃ q inside, quote cs = q :: inside ∧ (q = '"' ∨ q = '\'') := by
  rw [quote]
  split
  · exact ⟨'"', _, rfl, Or.inl rfl⟩
  · exact ⟨'\'', _, rfl, Or.inr rfl⟩
  · exact ⟨'"', _, rfl, Or.inl rfl⟩
  · exact ⟨'\'', _, rfl, Or.inr rfl⟩

/-- A text is read back as a value: `string?_quote`, as no quote follows a value. -/
theorem value?_quote (depth : Nat) (s : String) (hrest : Follows rest) :
    value? depth (quote s.toList ++ rest) = some (.text s, rest) := by
  obtain ⟨q, inside, hcons, hq⟩ := exists_quote s.toList
  have hread := string?_quote s.toList (hrest.head?_ne (c := '"') (by decide))
    (hrest.head?_ne (c := '\'') (by decide))
  rw [hcons] at hread ⊢
  rw [List.cons_append, value?_quoted depth hq, ← List.cons_append, hread]
  simp

theorem value?_append (depth : Nat) {word : List Char} {v : Value} (hne : word ≠ [])
    (hword : ∀ c ∈ word, isWordChar c = true) (hv : word? word = some v) (hrest : Follows rest) :
    value? depth (word ++ rest) = some (v, rest) := by
  cases word with
  | nil => exact absurd rfl hne
  | cons c others =>
    rw [List.cons_append, value?_word depth (hword c (List.mem_cons_self ..)), ← List.cons_append,
      scalar?_append hword hv hrest]

end Scalars

/-! ## Arrays -/

section Arrays

variable {item : Reader Value} {rest : List Char}

/-- Blanks, line ends and comments end where something else begins. -/
theorem skipTrivia?_cons {c : Char} (h : c ∉ ['\n', '\r', ' ', '\t', '#']) (rest : List Char) :
    skipTrivia? false (c :: rest) = some (c :: rest) := by
  simp only [List.mem_cons, List.not_mem_nil, or_false, not_or] at h
  obtain ⟨hfeed, hreturn, hblank, htab, hcomment⟩ := h
  rw [skipTrivia?]
  · simp [isSpace, hblank, htab, hcomment]
  · exact hfeed
  · exact fun _ heq => absurd heq hreturn

theorem skipTrivia?_feed (rest : List Char) :
    skipTrivia? false ('\n' :: rest) = skipTrivia? false rest := by
  rw [skipTrivia?]

theorem skipTrivia?_blank (rest : List Char) :
    skipTrivia? false (' ' :: rest) = skipTrivia? false rest := by
  rw [skipTrivia?]
  · simp [isSpace]
  · decide
  · exact fun _ heq => absurd heq (by decide)

theorem items?_close {cs : List Char} (h : skipTrivia? false cs = some (']' :: rest)) :
    items? item cs = some ([], rest) := by
  rw [items?, h]
  rfl

/-- What comes after an item decides whether the array goes on. The measure of `items?` goes down
with the item, so its guard lets it go on. -/
theorem items?_item {cs tail after : List Char} {c : Char} {v : Value}
    (h : skipTrivia? false cs = some (c :: tail)) (hc : c ≠ ']')
    (hv : item (c :: tail) = some (v, after)) :
    items? item cs = match skipTrivia? false after with
      | some (']' :: rest) => some ([v], rest)
      | some (',' :: rest) =>
        if rest.length < cs.length then (items? item rest).map fun r => (v :: r.1, r.2) else none
      | _ => none := by
  rw [items?, h]
  split
  · next heq => cases heq
  · next heq => exact absurd (List.cons.inj (Option.some.inj heq)).1 hc
  · next heq =>
    rw [← Option.some.inj heq, hv]
    rfl

/-- A value that a reader takes back from where it is written by `valueChars`, if it may end there.
-/
structure ReadBack (item : Reader Value) (v : Value) : Prop where
  starts : ∃ c tail, valueChars v = c :: tail ∧ startsValue c = true
  reads {rest : List Char} (hrest : Follows rest) : item (valueChars v ++ rest) = some (v, rest)

/-- Blanks and line ends before a value are passed over, and then the value is read back as an item.
-/
theorem ReadBack.items? {v : Value} (h : ReadBack item v) {cs after : List Char}
    (hcs : skipTrivia? false cs = skipTrivia? false (valueChars v ++ after))
    (hafter : Follows after) :
    items? item cs = match skipTrivia? false after with
      | some (']' :: rest) => some ([v], rest)
      | some (',' :: rest) =>
        if rest.length < cs.length then (Toml.items? item rest).map fun r => (v :: r.1, r.2)
        else none
      | _ => none := by
  obtain ⟨c, tail, hcons, hstarts⟩ := h.starts
  have hread := h.reads hafter
  have hmark : c ≠ ']' := ne_of_kind hstarts (by decide)
  rw [hcons, List.cons_append] at hread hcs
  rw [skipTrivia?_cons (not_mem_of_kind hstarts (by decide))] at hcs
  exact items?_item hcs hmark hread

theorem items?_single {v : Value} (h : ReadBack item v) (rest : List Char) :
    items? item (valueChars v ++ ']' :: rest) = some ([v], rest) := by
  rw [h.items? rfl (follows_cons (by decide) rest), skipTrivia?_cons (by decide)]
  rfl

/-- Items on lines of their own are read back, if each of them is. By induction on the items; a
comma follows each of them, the last one too. -/
theorem items?_itemsChars {items : List Value} (h : ∀ v ∈ items, ReadBack item v)
    (rest : List Char) : items? item (itemsChars items ++ rest) = some (items, rest) := by
  -- Each item is followed by a comma, the last one too, so the induction ends at the bracket.
  induction items with
  | nil =>
    apply items?_close
    show skipTrivia? false ('\n' :: ']' :: rest) = _
    rw [skipTrivia?_feed, skipTrivia?_cons (by decide)]
  | cons v others ih =>
    obtain ⟨hv, hothers⟩ := List.forall_mem_cons.mp h
    have hline : itemsChars (v :: others) ++ rest =
        '\n' :: ' ' :: ' ' :: ' ' :: ' ' :: (valueChars v ++ ',' :: (itemsChars others ++ rest)) := by
      simp [itemsChars]
    have hblank : skipTrivia? false ('\n' :: ' ' :: ' ' :: ' ' :: ' ' ::
        (valueChars v ++ ',' :: (itemsChars others ++ rest))) =
        skipTrivia? false (valueChars v ++ ',' :: (itemsChars others ++ rest)) := by
      simp only [skipTrivia?_feed, skipTrivia?_blank]
    rw [hline, hv.items? hblank (follows_cons (by decide) _), skipTrivia?_cons (by decide)]
    show (if _ then (Toml.items? item (itemsChars others ++ rest)).map _ else none) = _
    rw [if_pos, ih hothers]
    · rfl
    · simp only [List.length_cons, List.length_append]
      omega

/-- On one line or over several, an array is a bracket and what its items are read back from.
`valueChars` writes none, one, or many items in three ways. -/
theorem exists_items?_valueChars {items : List Value} (h : ∀ v ∈ items, ReadBack item v) :
    ∃ inside, valueChars (.array items) = '[' :: inside ∧
      ∀ rest, items? item (inside ++ rest) = some (items, rest) := by
  cases items with
  | nil =>
    refine ⟨[']'], by rw [valueChars], fun rest => ?_⟩
    exact items?_close (skipTrivia?_cons (by decide) rest)
  | cons v others =>
    cases others with
    | nil =>
      refine ⟨valueChars v ++ [']'], by rw [valueChars]; rfl, fun rest => ?_⟩
      rw [List.append_assoc]
      exact items?_single (h v (List.mem_cons_self ..)) rest
    | cons w more =>
      refine ⟨itemsChars (v :: w :: more), ?_, items?_itemsChars h⟩
      rw [valueChars]
      exact fun hmore => by cases hmore

/-- An array is read back one level deeper than its items are. -/
theorem readBack_array {depth : Nat} {items : List Value}
    (h : ∀ v ∈ items, ReadBack (value? depth) v) : ReadBack (value? (depth + 1)) (.array items) := by
  obtain ⟨inside, hchars, hread⟩ := exists_items?_valueChars h
  constructor
  · exact ⟨'[', inside, hchars, by decide⟩
  · intro rest _
    rw [hchars, List.cons_append]
    show (items? (value? depth) (inside ++ rest)).map _ = _
    rw [hread]
    rfl

end Arrays

/-- A value that is written as a word is read back. -/
theorem readBack_word (depth : Nat) {v : Value} (hne : valueChars v ≠ [])
    (hword : ∀ c ∈ valueChars v, isWordChar c = true) (hv : word? (valueChars v) = some v) :
    ReadBack (value? depth) v := by
  constructor
  · cases hchars : valueChars v with
    | nil => exact absurd hchars hne
    | cons c tail =>
      have hc : isWordChar c = true := hword c (hchars ▸ List.mem_cons_self ..)
      exact ⟨c, tail, rfl, by simp [startsValue, hc]⟩
  · exact fun hrest => value?_append depth hne hword hv hrest

/-- A text is read back, being written as a literal. -/
theorem readBack_text (depth : Nat) (s : String) : ReadBack (value? depth) (.text s) := by
  constructor
  · obtain ⟨q, inside, hcons, hq⟩ := exists_quote s.toList
    refine ⟨q, inside, ?_, ?_⟩
    · rw [valueChars, hcons]
    · rcases hq with rfl | rfl
      · decide
      · decide
  · intro rest hrest
    rw [valueChars]
    exact value?_quote depth s hrest

/-- A value that can be written is read back from where it is written. By induction on
`Value.Writable`, with `readBack_array` for the items and one of the lemmas above for each scalar.
-/
theorem Value.Writable.readBack {depth : Nat} {v : Value} (h : v.Writable depth) :
    ReadBack (value? depth) v := by
  induction h with
  | text s => exact readBack_text _ s
  | integer n =>
    apply readBack_word
    · obtain ⟨c, rest, hcons, -⟩ := exists_head_int n.toInt
      rw [valueChars, hcons]
      simp
    · intro c hc
      rw [valueChars] at hc
      exact isWordChar_int hc
    · rw [valueChars]
      exact word?_int n
  | boolean b =>
    cases b with
    | false =>
      apply readBack_word
      · simp [valueChars]
      · rw [valueChars]
        exact List.all_eq_true.mp rfl
      · rw [valueChars]
        rfl
    | true =>
      apply readBack_word
      · simp [valueChars]
      · rw [valueChars]
        exact List.all_eq_true.mp rfl
      · rw [valueChars]
        rfl
  | array _ ih => exact readBack_array ih

end HybridCompile.Toml
