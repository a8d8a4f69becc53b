import HybridCompile.Json.Basic

/-!
# HybridCompile — JSON tokens

A JSON text is a sequence of tokens with blanks between them: six marks, and literals. Here the
text is cut into tokens; which sequences of tokens are values is `Json/Parser`'s concern.

A string literal may hold any character but a bare control, and escapes. An escaped surrogate that
has no partner is well formed as text; the literal then denotes nothing.
-/

namespace HybridCompile.Json

/-- A token. -/
inductive Token where
  | openArray
  | closeArray
  | openObject
  | closeObject
  | comma
  | colon
  /-- A literal, already a value. -/
  | scalar (value : Json)
  deriving Repr, BEq, Inhabited

/-- The value of a hexadecimal digit, in small or capital letters. -/
def hexValue? (c : Char) : Option Nat :=
  if '0' ≤ c && c ≤ '9' then some (c.toNat - 48)
  else if 'a' ≤ c && c ≤ 'f' then some (c.toNat - 87)
  else if 'A' ≤ c && c ≤ 'F' then some (c.toNat - 55)
  else none

/-- The code unit that four hexadecimal digits spell. -/
def unit? (a b c d : Char) : Option Nat := do
  let a ← hexValue? a
  let b ← hexValue? b
  let c ← hexValue? c
  let d ← hexValue? d
  return ((a * 16 + b) * 16 + c) * 16 + d

/-- The character of an escape by one letter. -/
def escapeLetter? (c : Char) : Option Char :=
  if c == '"' || c == '\\' || c == '/' then some c
  else if c == 'b' then some '\x08'
  else if c == 'f' then some '\x0c'
  else if c == 'n' then some '\n'
  else if c == 'r' then some '\r'
  else if c == 't' then some '\t'
  else none

/-- A high surrogate, the first half of a pair. -/
def isHigh (n : Nat) : Bool := 0xD800 ≤ n && n ≤ 0xDBFF

/-- A low surrogate, the second half of a pair. -/
def isLow (n : Nat) : Bool := 0xDC00 ≤ n && n ≤ 0xDFFF

/-- The character of a surrogate pair. -/
def combine (high low : Nat) : Char :=
  Char.ofNat (0x10000 + (high - 0xD800) * 0x400 + (low - 0xDC00))

/-- A piece of a string literal: a character, or an escaped half of a surrogate pair. -/
inductive Piece where
  | char (c : Char)
  | half (unit : Nat)
  deriving Repr, DecidableEq

/-- The piece that an escaped code unit stands for. -/
def Piece.ofUnit (n : Nat) : Piece :=
  if isHigh n || isLow n then .half n else .char (Char.ofNat n)

/-- The characters that pieces denote: halves have to come in pairs, high before low. -/
def Piece.denote : List Piece → Option (List Char)
  | [] => some []
  | .char c :: rest => (denote rest).map (c :: ·)
  | .half high :: .half low :: rest =>
    if isHigh high && isLow low then (denote rest).map (combine high low :: ·) else none
  | .half _ :: _ => none

/-- The rest of a string literal after its opening quotation mark: its pieces, and the text after
the closing quotation mark. -/
def stringRest : List Char → Option (List Piece × List Char)
  | [] => none
  | '"' :: rest => some ([], rest)
  | '\\' :: 'u' :: a :: b :: c :: d :: rest => do
    let n ← unit? a b c d
    let r ← stringRest rest
    return (Piece.ofUnit n :: r.1, r.2)
  | '\\' :: c :: rest => do
    let e ← escapeLetter? c
    let r ← stringRest rest
    return (.char e :: r.1, r.2)
  | c :: rest =>
    if c == '\\' || c.toNat < 0x20 then none
    else (stringRest rest).map fun r => (.char c :: r.1, r.2)

/-- A string literal takes at least its closing quotation mark. -/
theorem length_stringRest {cs : List Char} {r : List Piece × List Char}
    (h : stringRest cs = some r) : r.2.length < cs.length := by
  fun_induction stringRest cs generalizing r with
  | case1 => simp at h
  | case2 rest => simp at h; simp [← h]
  | case3 a b c d rest ih =>
    simp only [Option.bind_eq_bind, Option.bind_eq_some_iff, Option.pure_def,
      Option.some.injEq] at h
    obtain ⟨_, _, q, hq, rfl⟩ := h
    have := ih hq
    simp only [List.length_cons]
    omega
  | case4 c rest _ ih =>
    simp only [Option.bind_eq_bind, Option.bind_eq_some_iff, Option.pure_def,
      Option.some.injEq] at h
    obtain ⟨_, _, q, hq, rfl⟩ := h
    have := ih hq
    simp only [List.length_cons]
    omega
  | case5 => simp at h
  | case6 c rest _ _ _ _ ih =>
    simp only [Option.map_eq_some_iff] at h
    obtain ⟨q, hq, rfl⟩ := h
    have := ih hq
    simp only [List.length_cons]
    omega

def isWordChar (c : Char) : Bool :=
  c.isAlphanum || c == '-' || c == '+' || c == '.'

/-- An unsigned whole number has no leading zero. -/
def isWhole (cs : List Char) : Bool :=
  !cs.isEmpty && cs.all Number.isDigit && (cs.length == 1 || cs.head? != some '0')

/-- Whether a word is a number literal: an optional minus sign, a whole number, optionally a point
and digits, optionally an exponent. -/
def isNumber (cs : List Char) : Bool :=
  let unsigned := if cs.head? == some '-' then cs.tail else cs
  let mantissa := unsigned.takeWhile fun c => c != 'e' && c != 'E'
  let whole := mantissa.takeWhile (· != '.')
  isWhole whole && (Number.Decimal.ofChars? cs).isSome && cs.head? != some '+'

/-- The value of a word: one of the three names, or a number. -/
def word? (cs : List Char) : Option Json :=
  if cs = ['n', 'u', 'l', 'l'] then some .null
  else if cs = ['t', 'r', 'u', 'e'] then some (.bool true)
  else if cs = ['f', 'a', 'l', 's', 'e'] then some (.bool false)
  else if isNumber cs then some (.number (String.ofList cs))
  else none

/-- The token of a mark. -/
def mark? (c : Char) : Option Token :=
  if c == '[' then some .openArray
  else if c == ']' then some .closeArray
  else if c == '\x7b' then some .openObject
  else if c == '\x7d' then some .closeObject
  else if c == ',' then some .comma
  else if c == ':' then some .colon
  else none

def isSpace (c : Char) : Bool :=
  c == ' ' || c == '\n' || c == '\t' || c == '\r'

/-- The tokens of a text, or `none` where a piece of it is no token. -/
def tokens? (cs : List Char) : Option (List Token) :=
  match cs with
  | [] => some []
  | c :: rest =>
    if isSpace c then tokens? rest
    else match mark? c with
    | some token => (tokens? rest).map (token :: ·)
    | none =>
      -- A string, up to its closing quotation mark.
      if c == '"' then
        match _h : stringRest rest with
        | some r =>
          (tokens? r.2).map (Token.scalar (.string ((Piece.denote r.1).map String.ofList)) :: ·)
        | none => none
      -- A word, as long as it goes.
      else
        match word? (c :: rest.takeWhile isWordChar) with
        | some value => (tokens? (rest.dropWhile isWordChar)).map (Token.scalar value :: ·)
        | none => none
termination_by cs.length
decreasing_by
  · simp
  · simp
  · have := length_stringRest _h
    simp only [List.length_cons]
    omega
  · have : (rest.dropWhile isWordChar).length ≤ rest.length :=
      (List.dropWhile_sublist _).length_le
    simp only [List.length_cons]
    omega

end HybridCompile.Json
