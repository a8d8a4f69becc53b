import HybridCompile.Files.Fault
import HybridCompile.Graph.Dataflow
import HybridCompile.Json.Parser

/-!
# HybridCompile — graph manifests

A manifest is a graph written as JSON. Its operators carry no index: the order in which they are
written is the order of execution.

* `Manifest.parse` — read one.
* `Manifest.check` — what can be said without following the tensors.
* `Manifest.toGraph` — the graph, with what is known about its tensors.
-/

namespace HybridCompile

/-- An operator of a manifest. -/
structure ManifestOperator where
  name : String
  kind : String
  modulePath : List String
  inputs : List String
  outputs : List String
  deriving DecidableEq, Repr

/-- A graph as it is written. -/
structure Manifest where
  name : String
  inputs : List String
  outputs : List String
  operators : List ManifestOperator
  deriving DecidableEq, Repr

/-- Why a manifest gives no graph. -/
inductive ManifestError where
  | unreadable (fault : FileFault)
  | malformed
  | noOperators
  | blankKind (operator : String)
  | graph (e : GraphError)
  deriving DecidableEq, Repr

def ManifestError.message : ManifestError → String
  | unreadable fault => s!"failed to read graph manifest: {fault.message}"
  | malformed => "failed to parse graph manifest: not a graph manifest"
  | noOperators => "invalid graph: manifest contains no operators"
  | blankKind operator => s!"invalid operator '{operator}': missing operator kind"
  | graph e => e.message

namespace ManifestOperator

def toJson (op : ManifestOperator) : Json :=
  .record [
    ("name", .str op.name), ("kind", .str op.kind), ("module_path", .texts op.modulePath),
    ("inputs", .texts op.inputs), ("outputs", .texts op.outputs)]

/-- Read an operator. Lists that are left out are empty. -/
def ofJson? (v : Json) : Option ManifestOperator :=
  match v.record? ["name", "kind", "module_path", "inputs", "outputs"] with
  | some [some name, some kind, modulePath, inputs, outputs] => do
    return {
      name := ← name.text?
      kind := ← kind.text?
      modulePath := ← Json.textsOrNone modulePath
      inputs := ← Json.textsOrNone inputs
      outputs := ← Json.textsOrNone outputs }
  | _ => none

/-- The operator at a place of the graph. -/
def placed (op : ManifestOperator) (place : Nat) : Operator :=
  ⟨op.name, op.kind, op.modulePath, place, op.inputs, op.outputs⟩

end ManifestOperator

namespace Manifest

def toJson (m : Manifest) : Json :=
  .record [
    ("name", .str m.name), ("inputs", .texts m.inputs), ("outputs", .texts m.outputs),
    ("operators", .array (m.operators.map ManifestOperator.toJson))]

/-- Read a manifest. The operators and the name have to be there. -/
def ofJson? (v : Json) : Option Manifest :=
  match v.record? ["name", "inputs", "outputs", "operators"] with
  | some [some name, inputs, outputs, some operators] => do
    return {
      name := ← name.text?
      inputs := ← Json.textsOrNone inputs
      outputs := ← Json.textsOrNone outputs
      operators := ← (← operators.items?).mapM ManifestOperator.ofJson? }
  | _ => none

def parse (text : String) : Except ManifestError Manifest :=
  match (Json.parse? text).bind ofJson? with
  | some m => .ok m
  | none => .error .malformed

/-- The manifest on its own: it has operators, and each has a kind. -/
def check (m : Manifest) : Except ManifestError Unit :=
  if m.operators.isEmpty then .error .noOperators
  else
    match m.operators.find? fun op => Text.isBlankText op.kind with
    | some op => .error (.blankKind op.name)
    | none => .ok ()

def warnings (m : Manifest) : List String :=
  match m.check with
  | .ok () =>
    if m.outputs.isEmpty then [s!"manifest '{m.name}' declares no graph outputs"] else []
  | .error _ => []

/-- Operators at consecutive places. -/
def placeFrom (place : Nat) : List ManifestOperator → List Operator
  | [] => []
  | op :: rest => op.placed place :: placeFrom (place + 1) rest

/-- The graph that the manifest describes. -/
def described (m : Manifest) : Graph :=
  ⟨m.name, m.inputs, placeFrom 0 m.operators, m.outputs⟩

/-- The graph that the manifest describes, looked over. -/
def toGraph (m : Manifest) : Except ManifestError ValidGraph := do
  m.check
  match m.described.validate with
  | .ok g => return g
  | .error e => throw (.graph e)

/-- Every warning on the way from a manifest to its graph, in order. -/
def graphWarnings (m : Manifest) : List String :=
  m.warnings ++
    match m.toGraph with
    | .ok g => g.warnings
    | .error _ => []

end Manifest

end HybridCompile
