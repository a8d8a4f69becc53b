import HybridCompile.Number.Decimal

/-!
# HybridCompile — JSON values

The values of a JSON text. Two things of the text are kept as written because what they mean
depends on who reads them: a number stays the literal that spells it, and a string literal that
escapes one half of a surrogate pair without the other denotes no text at all.

* `Json` — the values; `Json.str`, `Json.ofNat`, `Json.ofInt`, `Json.record`, `Json.texts` build
  the usual ones.
* `Json.record?` — the values of named fields, out of an object or out of a list in field order.
-/

namespace HybridCompile

/-- What a string literal denotes; `none` when it escapes half of a surrogate pair. -/
abbrev Literal := Option String

/-- A JSON value. The members of an object stand in the order of the text. -/
inductive Json where
  | null
  | bool (value : Bool)
  | number (literal : String)
  | string (text : Literal)
  | array (items : List Json)
  | object (members : List (Literal × Json))
  deriving Repr, BEq, Inhabited

namespace Json

def str (s : String) : Json := .string (some s)

def ofNat (n : Nat) : Json := .number (toString n)

def ofInt (n : Int) : Json := .number (toString n)

def record (members : List (String × Json)) : Json :=
  .object (members.map fun m => (some m.1, m.2))

def texts (items : List String) : Json := .array (items.map str)

/-- A value that may be missing, with `null` for a missing one. -/
def orNull {α : Type} (f : α → Json) : Option α → Json
  | none => .null
  | some a => f a

/-! ## Reading values -/

def text? : Json → Option String
  | .string text => text
  | _ => none

/-- The whole number that a literal without sign, point and exponent spells. -/
def nat? : Json → Option Nat
  | .number literal => Number.nat? literal.toList
  | _ => none

/-- The whole number that a literal with an optional minus sign spells. Minus zero spells none: no
whole number is a zero with a sign. -/
def int? : Json → Option Int
  | .number literal =>
    match literal.toList with
    | '-' :: digits => ((Number.nat? digits).filter (· ≠ 0)).map fun n => -(n : Int)
    | digits => (Number.nat? digits).map Int.ofNat
  | _ => none

def bool? : Json → Option Bool
  | .bool b => some b
  | _ => none

def items? : Json → Option (List Json)
  | .array items => some items
  | _ => none

def texts? (v : Json) : Option (List String) := do
  (← v.items?).mapM text?

/-- The value of the first member with the given name. -/
def lookup (name : String) : List (Literal × Json) → Option Json
  | [] => none
  | (key, value) :: rest => if key = some name then some value else lookup name rest

/-- How many members have the given name. -/
def countName (name : String) (members : List (Literal × Json)) : Nat :=
  members.countP fun m => m.1 = some name

/-- The value of a member of an object; nothing for other values. -/
def get? (v : Json) (name : String) : Option Json :=
  match v with
  | .object members => lookup name members
  | _ => none

/-- The values of the fields `names`, each `none` where it is left out.

An object gives its fields by name: other members are passed over, but no field may be given twice
and no key may fail to denote a text. A list gives the fields in order, and may stop early. -/
def record? (names : List String) (v : Json) : Option (List (Option Json)) :=
  match v with
  | .object members =>
    if members.all (fun m => m.1.isSome) && names.all (fun n => countName n members ≤ 1) then
      some (names.map fun n => lookup n members)
    else none
  | .array items =>
    if items.length ≤ names.length then
      some (items.map some ++ List.replicate (names.length - items.length) none)
    else none
  | _ => none

/-- The list of texts of a field that may be left out, and is then empty. -/
def textsOrNone : Option Json → Option (List String)
  | none => some []
  | some v => v.texts?

end Json

end HybridCompile
