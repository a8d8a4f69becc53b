import HybridCompile.Json.Basic

/-!
# HybridCompile — operators

An operator is one step of a graph: it reads tensors, writes tensors, and has a kind that says what
it does. The modules of the model in which it stands are kept too, outermost first, because a
request may keep whole modules off the accelerator.
-/

namespace HybridCompile

/-- A step of a graph. -/
structure Operator where
  name : String
  /-- What the operator does, such as `aten::conv2d`. -/
  kind : String
  /-- The types of the modules around the operator, outermost first. -/
  modulePath : List String
  /-- The place of the operator in the order of execution, counted from 0. -/
  index : Nat
  /-- The tensors read. -/
  inputs : List String
  /-- The tensors written. -/
  outputs : List String
  deriving DecidableEq, Repr, Inhabited

namespace Operator

/-- Whether one of the modules around the operator is in the list. -/
def isWithinAny (op : Operator) (modules : List String) : Bool :=
  op.modulePath.any modules.contains

def summary (op : Operator) : String :=
  let scope :=
    if op.modulePath.isEmpty then "" else " in " ++ String.intercalate " > " op.modulePath
  s!"[{op.index}] {op.name} ({op.kind}){scope} — {op.inputs.length} in, {op.outputs.length} out"

def toJson (op : Operator) : Json :=
  .record [
    ("name", .str op.name), ("kind", .str op.kind), ("module_path", .texts op.modulePath),
    ("index", .ofNat op.index), ("inputs", .texts op.inputs), ("outputs", .texts op.outputs)]

/-- Read an operator. Lists that are left out are empty. -/
def ofJson? (v : Json) : Option Operator :=
  match v.record? ["name", "kind", "module_path", "index", "inputs", "outputs"] with
  | some [some name, some kind, modulePath, some index, inputs, outputs] => do
    let index ← index.nat?
    if index < UInt64.size then
      return {
        name := ← name.text?
        kind := ← kind.text?
        modulePath := ← Json.textsOrNone modulePath
        index
        inputs := ← Json.textsOrNone inputs
        outputs := ← Json.textsOrNone outputs }
    else none
  | _ => none

end Operator

end HybridCompile
