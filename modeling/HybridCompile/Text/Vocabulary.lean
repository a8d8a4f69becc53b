import HybridCompile.Fault
import HybridCompile.Text.Blank

/-!
# HybridCompile — vocabularies

Element types, layouts, devices and capabilities are all given by name, and each of them by several
names. They are read alike: a vocabulary says what the names are and what they stand for, and
`Vocabulary.parse` looks a typed name up.
-/

namespace HybridCompile

/-- The names of some things. -/
structure Vocabulary (α : Type) where
  /-- What the things are called when a name stands for none of them. -/
  kind : String
  /-- The form in which a typed name is looked up. -/
  fold : String → String
  /-- The names in that form, with what they stand for. -/
  spellings : List (String × α)
  /-- No name stands for two things. -/
  distinct : (spellings.map Prod.fst).Nodup

/-- What a typed name stands for. -/
def Vocabulary.parse {α : Type} (v : Vocabulary α) (text : String) : Except Fault α :=
  match Text.findName? v.spellings (v.fold text) with
  | some a => .ok a
  | none => .error (.unknownName v.kind text)

end HybridCompile
