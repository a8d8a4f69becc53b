import HybridCompile.Json.Basic
import HybridCompile.Text.Vocabulary

/-!
# HybridCompile — element types

The types that the elements of a tensor can have. They are used twice: as the type of an input,
and as a precision in which an engine may compute.
-/

namespace HybridCompile

/-- The type of a tensor's elements. -/
inductive ElementType where
  | float
  | half
  | int8
  | int32
  | bool
  deriving DecidableEq, Repr

namespace ElementType

/-- Every element type, in the order in which precisions are listed. -/
def all : List ElementType := [float, half, int8, int32, bool]

theorem mem_all (t : ElementType) : t ∈ all := by cases t <;> decide

def rank : ElementType → Nat
  | float => 0
  | half => 1
  | int8 => 2
  | int32 => 3
  | bool => 4

/-- Types are ordered as they stand in `all`. -/
def le (a b : ElementType) : Bool := a.rank ≤ b.rank

def label : ElementType → String
  | float => "Float"
  | half => "Half"
  | int8 => "Int8"
  | int32 => "Int32"
  | bool => "Bool"

def name : ElementType → String
  | float => "float"
  | half => "half"
  | int8 => "int8"
  | int32 => "int32"
  | bool => "bool"

def toJson (t : ElementType) : Json := .str t.name

/-- Whether computing in the type needs a calibration, or a graph trained for it. -/
def isQuantized (t : ElementType) : Bool := t == int8

/-- The names of element types. -/
def names : Vocabulary ElementType where
  kind := "dtype"
  fold := Text.foldName
  spellings := [
    ("float", float), ("float32", float), ("f32", float), ("fp32", float),
    ("half", half), ("float16", half), ("f16", half), ("fp16", half),
    ("int8", int8), ("i8", int8), ("char", int8),
    ("int32", int32), ("i32", int32), ("int", int32),
    ("bool", bool), ("boolean", bool)]
  distinct := by decide

abbrev parse (text : String) : Except Fault ElementType := names.parse text

end ElementType

end HybridCompile
