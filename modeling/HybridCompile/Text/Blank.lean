/-!
# HybridCompile — blanks and names

Text that a person types is read forgivingly: blanks around a name do not count and neither does
the case of its letters. A *blank* is a character with Unicode's `White_Space` property, so a wide
space or a no-break space counts as one.

* `isBlank`, `trim`, `isBlankText` — blanks, and what is left of a text without its outer ones.
* `foldName` — the form in which two spellings of one name agree.
* `findName?` — look a typed name up in a table of accepted spellings.
-/

namespace HybridCompile.Text

/-- A character with Unicode's `White_Space` property. -/
def isBlank (c : Char) : Bool :=
  let n := c.toNat
  (9 ≤ n && n ≤ 13) || n == 0x20 || n == 0x85 || n == 0xA0 || n == 0x1680
    || (0x2000 ≤ n && n ≤ 0x200A) || n == 0x2028 || n == 0x2029 || n == 0x202F
    || n == 0x205F || n == 0x3000

/-- A list of characters without the blanks at either end. -/
def trimChars (cs : List Char) : List Char :=
  ((cs.dropWhile isBlank).reverse.dropWhile isBlank).reverse

/-- A text without the blanks at either end. -/
def trim (s : String) : String :=
  String.ofList (trimChars s.toList)

/-- A text of blanks only, the empty text included. -/
def isBlankText (s : String) : Bool :=
  s.toList.all isBlank

/-- The form in which spellings of one name agree: no outer blanks, small letters. Only the letters
of ASCII are folded. Every accepted name is written in ASCII without the letter `k`, and no other
letter of Unicode folds to a letter of such a name. -/
def foldName (s : String) : String :=
  String.ofList ((trimChars s.toList).map Char.toLower)

/-- The entry of `table` whose spelling is `name`, if there is one. -/
def findName? {α : Type} (table : List (String × α)) (name : String) : Option α :=
  (table.find? fun entry => entry.1 == name).map Prod.snd

end HybridCompile.Text
