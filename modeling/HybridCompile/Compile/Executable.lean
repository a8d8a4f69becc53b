import HybridCompile.Compile.Metrics
import HybridCompile.Json.Printer

/-!
# HybridCompile — executables

An executable runs a graph segment by segment: engines on the accelerator, lists of operators on
the general executor. Each segment says which tensors it reads and which it makes.

* `Segment`, `Executable` — the parts.
* `Executable.check` — whether every tensor is there when it is read.
-/

namespace HybridCompile

/-- A compiled region. -/
structure Segment where
  region : Nat
  target : Target
  operatorNames : List String
  inputs : List String
  outputs : List String
  artifact : Artifact
  deriving DecidableEq, Repr

namespace Segment

def ofRegion (r : Region) (artifact : Artifact) : Segment :=
  ⟨r.index, r.target, r.operatorNames, r.inputs, r.outputs, artifact⟩

def toJson (s : Segment) : Json :=
  .record [
    ("region", .ofNat s.region), ("target", .str s.target.name),
    ("operator_names", .texts s.operatorNames), ("inputs", .texts s.inputs),
    ("outputs", .texts s.outputs), ("artifact", s.artifact.toJson)]

end Segment

/-- What is wrong with an executable. -/
inductive ExecutableFault where
  /-- A segment does not carry its place as its index. -/
  | misplaced (place region : Nat)
  /-- An engine where operators should be interpreted, or the other way round. -/
  | wrongArtifact (place : Nat) (target : Target)
  /-- A segment reads a tensor that is not there yet. -/
  | missingInput (place : Nat) (tensor : String)
  /-- A graph output that no segment makes. -/
  | missingOutput (tensor : String)
  deriving DecidableEq, Repr

def ExecutableFault.text : ExecutableFault → String
  | misplaced place region => s!"segment {place} carries region index {region}"
  | wrongArtifact place target =>
    s!"segment {place} targets {target.label} but carries the wrong artifact kind"
  | missingInput place tensor =>
    s!"segment {place} reads '{tensor}' before any segment produces it"
  | missingOutput tensor => s!"graph output '{tensor}' is not produced by any segment"

/-- A compiled graph. -/
structure Executable where
  graphName : String
  inputs : List String
  outputs : List String
  segments : List Segment
  metrics : Metrics
  deriving DecidableEq, Repr

namespace Executable

/-- The segments that have an engine, with its bytes. -/
def engines (e : Executable) : List (Segment × Bytes) :=
  e.segments.filterMap fun s => s.artifact.engine?.map fun engine => (s, engine.1)

/-- Check segments from `place` on, when the tensors `available` are there; the tensors that are
there at the end. -/
def checkSegments (place : Nat) (available : List String) :
    List Segment → Except ExecutableFault (List String)
  | [] => .ok available
  | s :: rest => do
    if s.region ≠ place then throw (.misplaced place s.region)
    if s.artifact.isEngine ≠ (s.target == .accelerator) then throw (.wrongArtifact place s.target)
    match s.inputs.find? fun t => !available.contains t with
    | some missing => throw (.missingInput place missing)
    | none => checkSegments (place + 1) (s.outputs ++ available) rest

def check (e : Executable) : Except ExecutableFault Unit := do
  let available ← checkSegments 0 e.inputs e.segments
  match e.outputs.find? fun t => !available.contains t with
  | some missing => throw (.missingOutput missing)
  | none => return ()

/-- The executable on one line, with a letter and a size for each segment. -/
def summary (e : Executable) : String :=
  let layout := e.segments.map fun s => s!"{s.target.letter}{s.operatorNames.length}"
  s!"Executable '{e.graphName}': {e.segments.length} segments ({e.engines.length} engines), " ++
    "layout: [" ++ String.intercalate " " layout ++ "]"

def toJson (e : Executable) : Json :=
  .record [
    ("graph_name", .str e.graphName), ("inputs", .texts e.inputs), ("outputs", .texts e.outputs),
    ("segments", .array (e.segments.map Segment.toJson)), ("metrics", e.metrics.toJson)]

end Executable

end HybridCompile
