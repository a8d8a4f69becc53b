import HybridCompile.Graph.Dataflow
import HybridCompile.Plan.Basic
import HybridCompile.Settings.Basic

/-!
# HybridCompile — networks

A region for the accelerator is handed to a backend as a network: its operators as layers, and its
inputs bound to what is known of their shapes. An input of the graph has the shapes that the
settings give for it; an input that another region makes has its shape inferred.

* `Profile`, `Network` — the parts.
* `lower` — the network of a region.
-/

namespace HybridCompile

/-- The shapes, the element type and the layout of a network input. -/
@[ext] structure Profile where
  min : Dims
  opt : Dims
  max : Dims
  dtype : ElementType
  layout : Layout
  deriving DecidableEq, Repr

namespace Profile

def ofSpec (s : TensorSpec) : Profile := ⟨s.min, s.opt, s.max, s.dtype, s.layout⟩

def isStatic (p : Profile) : Bool := p.min == p.opt && p.opt == p.max

def summary (p : Profile) : String :=
  if p.isStatic then s!"{renderDims p.opt} {p.dtype.label}"
  else s!"{renderDims p.min}..{renderDims p.opt}..{renderDims p.max} {p.dtype.label}"

/-- The members of the profile's JSON object. -/
def members (p : Profile) : List (String × Json) :=
  [("min", dimsJson p.min), ("opt", dimsJson p.opt), ("max", dimsJson p.max),
   ("dtype", p.dtype.toJson), ("format", p.layout.toJson)]

def toJson (p : Profile) : Json := .record p.members

end Profile

/-- What is known of the shape of a network input. -/
inductive InputBinding where
  | profile (p : Profile)
  | inferred
  deriving DecidableEq, Repr

def InputBinding.toJson : InputBinding → Json
  | profile p => .record (("kind", .str "profile") :: p.members)
  | inferred => .record [("kind", .str "inferred")]

/-- An input of a network. -/
@[ext] structure NetworkInput where
  name : String
  binding : InputBinding
  deriving DecidableEq, Repr

namespace NetworkInput

def profile? (i : NetworkInput) : Option Profile :=
  match i.binding with
  | .profile p => some p
  | .inferred => none

def toJson (i : NetworkInput) : Json :=
  .record [("name", .str i.name), ("binding", i.binding.toJson)]

end NetworkInput

/-- A layer of a network. -/
@[ext] structure Layer where
  name : String
  kind : String
  inputs : List String
  outputs : List String
  deriving DecidableEq, Repr

namespace Layer

def ofOperator (op : Operator) : Layer := ⟨op.name, op.kind, op.inputs, op.outputs⟩

def toJson (l : Layer) : Json :=
  .record [("name", .str l.name), ("kind", .str l.kind), ("inputs", .texts l.inputs),
    ("outputs", .texts l.outputs)]

end Layer

/-- A region as it is handed to a backend. -/
@[ext] structure Network where
  region : Nat
  name : String
  layers : List Layer
  inputs : List NetworkInput
  outputs : List String
  deriving DecidableEq, Repr

namespace Network

def profiles (n : Network) : List (String × Profile) :=
  n.inputs.filterMap fun i => i.profile?.map fun p => (i.name, p)

def hasDynamicInputs (n : Network) : Bool := n.profiles.any fun p => !p.2.isStatic

def toJson (n : Network) : Json :=
  .record [
    ("region", .ofNat n.region), ("name", .str n.name),
    ("layers", .array (n.layers.map Layer.toJson)),
    ("inputs", .array (n.inputs.map NetworkInput.toJson)), ("outputs", .texts n.outputs)]

end Network

/-- Why a region has no network. -/
inductive LowerError where
  /-- The region is for the general executor. -/
  | notAccelerator (region : Nat)
  /-- The region has an operator that the graph does not have. -/
  | noOperator (region index : Nat) (graph : String) (operatorCount : Nat)
  /-- The settings describe too few inputs. -/
  | noSpec (region : Nat) (tensor : String) (position specCount : Nat)
  deriving DecidableEq, Repr

namespace LowerError

def region : LowerError → Nat
  | notAccelerator region => region
  | noOperator region _ _ _ => region
  | noSpec region _ _ _ => region

def message : LowerError → String
  | notAccelerator region =>
    s!"region {region} targets the general executor and has no engine to build"
  | noOperator region index graph operatorCount =>
    s!"cannot lower region {region}: operator index {index} out of range for graph '{graph}' " ++
      s!"({operatorCount} operators)"
  | noSpec region tensor position specCount =>
    s!"cannot lower region {region}: graph input '{tensor}' is input #{position} but only " ++
      s!"{specCount} input specs were given"

end LowerError

/-- The layer of the operator with an index. -/
def lowerOperator (g : ValidGraph) (region index : Nat) : Except LowerError Layer :=
  match g.operators[index]? with
  | some op => .ok (.ofOperator op)
  | none => .error (.noOperator region index g.name g.operators.length)

/-- The network input for a tensor that a region needs from outside. -/
def lowerInput (g : ValidGraph) (s : Settings) (region : Nat) (tensor : String) :
    Except LowerError NetworkInput :=
  match g.inputs.findIdx? (· == tensor) with
  | some position =>
    match s.inputs[position]? with
    | some spec => .ok ⟨tensor, .profile (.ofSpec spec)⟩
    | none => .error (.noSpec region tensor position s.inputs.length)
  -- What another region makes has the shape that it is made with.
  | none => .ok ⟨tensor, .inferred⟩

/-- The network of a region. -/
def lower (g : ValidGraph) (r : Region) (s : Settings) : Except LowerError Network := do
  if !r.isAccelerator then throw (.notAccelerator r.index)
  let layers ← r.operators.mapM (lowerOperator g r.index)
  let inputs ← r.inputs.mapM (lowerInput g s r.index)
  return { region := r.index, name := s!"{g.name}.region{r.index}", layers, inputs,
           outputs := r.outputs }

end HybridCompile
