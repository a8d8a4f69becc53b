/-!
# HybridCompile — faults of a request

What can be wrong with the values of a request, found before any graph is looked at. A fault names
the field at fault, so that it can be mended without another run; `Fault.within` says where in a
larger request that field stands. Numbers of 32 bits are read by `wordOf`, whatever they count.
-/

namespace HybridCompile

/-- What is wrong with a value, and in which field. -/
inductive Fault where
  /-- A number or a dimension is below zero. -/
  | negative (field : String) (value : Int64)
  /-- A collection that needs an element has none. -/
  | empty (field : String)
  /-- The three shapes of a range do not have one rank. -/
  | rankMismatch (field : String) (min opt max : Nat)
  /-- A range has `min ≤ opt ≤ max` not everywhere. -/
  | boundsOrder (field : String) (index : Nat) (min opt max : Int64)
  /-- A text names nothing of the kind that was asked for. -/
  | unknownName (kind : String) (name : String)
  /-- A value is outside its range. -/
  | outOfRange (field : String) (detail : String)
  /-- Two values that are each fine do not go together. -/
  | incompatible (field : String) (detail : String)
  deriving DecidableEq, Repr

namespace Fault

def message : Fault → String
  | negative field value => s!"{field} must be 0 or greater, got {value}"
  | empty field => s!"{field} must not be empty"
  | rankMismatch field min opt max =>
    s!"{field}: rank mismatch, min has rank {min}, opt {opt}, max {max}"
  | boundsOrder field index min opt max =>
    s!"{field}: dimension {index} violates min <= opt <= max ({min} / {opt} / {max})"
  | unknownName kind name => s!"unknown {kind} '{name}'"
  | outOfRange field detail => s!"{field} out of range: {detail}"
  | incompatible field detail => s!"{field} is incompatible with the request: {detail}"

/-- The field at fault. A name that nothing has is not tied to a field. -/
def field? : Fault → Option String
  | negative field _ => some field
  | empty field => some field
  | rankMismatch field _ _ _ => some field
  | boundsOrder field _ _ _ _ => some field
  | unknownName _ _ => none
  | outOfRange field _ => some field
  | incompatible field _ => some field

/-- The path of a field inside `context`. -/
def joinPath (context field : String) : String :=
  if field.isEmpty then context else s!"{context}.{field}"

/-- The same fault, with its field found inside `context`. -/
def within (context : String) : Fault → Fault
  | negative field value => negative (joinPath context field) value
  | empty field => empty (joinPath context field)
  | rankMismatch field min opt max => rankMismatch (joinPath context field) min opt max
  | boundsOrder field index min opt max => boundsOrder (joinPath context field) index min opt max
  | unknownName kind name => unknownName kind name
  | outOfRange field detail => outOfRange (joinPath context field) detail
  | incompatible field detail => incompatible (joinPath context field) detail

theorem field?_within (context : String) (fault : Fault) :
    (fault.within context).field? = fault.field?.map (joinPath context) := by
  cases fault <;> rfl

end Fault

/-- A number of 32 bits, given as the field `field`; `excess` is said of one that is too large. -/
def wordOf (field excess : String) (value : Int64) : Except Fault UInt32 :=
  if value < 0 then .error (.negative field value)
  else if value.toInt.toNat < UInt32.size then .ok (UInt32.ofNat value.toInt.toNat)
  else .error (.outOfRange field excess)

end HybridCompile
