import HybridCompile.Json.Basic

/-!
# HybridCompile — plans

A plan divides the operators of a graph into regions, one after another, each for the accelerator
or for the general executor. A region says which tensors it needs from outside and which of its own
are needed outside; a region of the general executor says for each operator why it is there.

* `FallbackReason`, `Region`, `Plan` — the parts.
* `Plan.check` — whether the regions of a plan are in order, complete, and as large as can be.
-/

namespace HybridCompile

/-- Where a region runs. -/
inductive Target where
  | accelerator
  | general
  deriving DecidableEq, Repr

namespace Target

def label : Target → String
  | accelerator => "Accelerator"
  | general => "GeneralExecutor"

def name : Target → String
  | accelerator => "accelerator"
  | general => "general_executor"

def letter : Target → String
  | accelerator => "A"
  | general => "G"

end Target

/-- Why an operator does not run on the accelerator. -/
inductive FallbackReason where
  /-- Its kind is excluded. -/
  | excludedOperator
  /-- A module around it is excluded. -/
  | excludedModule (module : String)
  /-- The oracle rejects it. -/
  | unsupported (reason : String)
  /-- The accelerator could run it, but too few operators together with it. -/
  | belowMinRegionSize (runLength minRegionSize : Nat)
  deriving DecidableEq, Repr

namespace FallbackReason

def text : FallbackReason → String
  | excludedOperator => "operator kind excluded by policy"
  | excludedModule module => s!"enclosing module '{module}' excluded by policy"
  | unsupported reason => reason
  | belowMinRegionSize runLength minRegionSize =>
    s!"accelerator run of {runLength} below min region size {minRegionSize}"

def toJson : FallbackReason → Json
  | excludedOperator => .record [("cause", .str "excluded_operator")]
  | excludedModule module =>
    .record [("cause", .str "excluded_module"), ("module", .str module)]
  | unsupported reason => .record [("cause", .str "unsupported"), ("reason", .str reason)]
  | belowMinRegionSize runLength minRegionSize =>
    .record [("cause", .str "below_min_region_size"), ("run_len", .ofNat runLength),
      ("min_region_size", .ofNat minRegionSize)]

def ofJson? (v : Json) : Option FallbackReason := do
  match ← (← v.get? "cause").text? with
  | "excluded_operator" => some excludedOperator
  | "excluded_module" => return excludedModule (← (← v.get? "module").text?)
  | "unsupported" => return unsupported (← (← v.get? "reason").text?)
  | "below_min_region_size" =>
    return belowMinRegionSize (← (← v.get? "run_len").nat?) (← (← v.get? "min_region_size").nat?)
  | _ => none

end FallbackReason

/-- A stretch of operators that run in one place. -/
structure Region where
  index : Nat
  target : Target
  /-- The indices of the operators, in order. -/
  operators : List Nat
  operatorNames : List String
  /-- The tensors needed from outside, each once, in the order of first use. -/
  inputs : List String
  /-- The tensors made here and needed outside, in the order in which they are made. -/
  outputs : List String
  /-- For the general executor, why each operator is there. -/
  reasons : List FallbackReason
  deriving DecidableEq, Repr

namespace Region

def isAccelerator (r : Region) : Bool := r.target == .accelerator

/-- The region as JSON. Reasons are left out where there are none. -/
def toJson (r : Region) : Json :=
  .record ([
    ("index", .ofNat r.index), ("target", .str r.target.name),
    ("operators", .array (r.operators.map .ofNat)), ("operator_names", .texts r.operatorNames),
    ("inputs", .texts r.inputs), ("outputs", .texts r.outputs)]
    ++ if r.reasons.isEmpty then []
      else [("fallback_reasons", .array (r.reasons.map FallbackReason.toJson))])

end Region

/-- What is wrong with the regions of a plan. -/
inductive PlanFault where
  /-- A region does not carry its place as its index. -/
  | misplacedRegion (place index : Nat)
  | emptyRegion (index : Nat)
  | nameCount (index operators names : Nat)
  /-- The operators are not counted on without gap. -/
  | misplacedOperator (place operator region : Nat)
  /-- Two neighbours have one target. -/
  | sameTarget (index : Nat) (target : Target)
  /-- The regions do not cover the graph. -/
  | coverage (covered total : Nat)
  deriving DecidableEq, Repr

def PlanFault.text : PlanFault → String
  | misplacedRegion place index => s!"expected region index {place}, got {index}"
  | emptyRegion index => s!"region {index} is empty"
  | nameCount index operators names =>
    s!"region {index} has {operators} operators but {names} names"
  | misplacedOperator place operator region =>
    s!"expected operator {place}, got {operator} in region {region}"
  | sameTarget index target =>
    s!"regions {index - 1} and {index} are adjacent with the same target {target.label}"
  | coverage covered total => s!"plan covers {covered} of {total} operators"

/-- Why there is no plan. -/
inductive PartitionError where
  /-- An operator cannot run on the accelerator, and nothing may fall back. -/
  | unsupportedGraph (operator kind : String) (reason : FallbackReason)
  | emptyGraph
  | invalidPlan (fault : PlanFault)
  deriving DecidableEq, Repr

def PartitionError.message : PartitionError → String
  | unsupportedGraph operator kind reason =>
    "graph is not fully accelerator-eligible and fallback is disabled: " ++
      s!"operator '{operator}' ({kind}): {reason.text}"
  | emptyGraph => "cannot partition an empty graph"
  | invalidPlan fault => s!"invalid partition plan: {fault.text}"

/-- A division of a graph into regions. -/
structure Plan where
  graphName : String
  regions : List Region
  /-- How many operators the graph has. -/
  operatorCount : Nat
  deriving DecidableEq, Repr

namespace Plan

def acceleratorRegions (p : Plan) : List Region := p.regions.filter Region.isAccelerator

def acceleratorOperatorCount (p : Plan) : Nat :=
  (p.acceleratorRegions.flatMap Region.operators).length

/-- Check that operators are counted on from `place`; where the count then stands. -/
def checkOperators (region place : Nat) : List Nat → Except PlanFault Nat
  | [] => .ok place
  | op :: rest =>
    if op ≠ place then .error (.misplacedOperator place op region)
    else checkOperators region (place + 1) rest

/-- Check regions from `index` on, with the operators counted on from `place`, after a region with
the target `previous?`; where the count then stands. -/
def checkRegions (index place : Nat) (previous? : Option Target) :
    List Region → Except PlanFault Nat
  | [] => .ok place
  | r :: rest => do
    if r.index ≠ index then throw (.misplacedRegion index r.index)
    if r.operators.isEmpty then throw (.emptyRegion r.index)
    if r.operatorNames.length ≠ r.operators.length then
      throw (.nameCount r.index r.operators.length r.operatorNames.length)
    -- The operators are looked at before the target is.
    let place ← checkOperators r.index place r.operators
    if previous? = some r.target then throw (.sameTarget r.index r.target)
    checkRegions (index + 1) place (some r.target) rest

/-- What is wrong with the plan's regions, if they are there. -/
def fault? (p : Plan) : Option PlanFault :=
  match checkRegions 0 0 none p.regions with
  | .error fault => some fault
  | .ok covered =>
    if covered = p.operatorCount then none else some (.coverage covered p.operatorCount)

def check (p : Plan) : Except PartitionError Unit :=
  if p.regions.isEmpty then .error .emptyGraph
  else
    match p.fault? with
    | some fault => .error (.invalidPlan fault)
    | none => .ok ()

/-- The plan on one line, with a letter and a size for each region. -/
def summary (p : Plan) : String :=
  let accelerated := p.acceleratorRegions.length
  let layout := p.regions.map fun r => s!"{r.target.letter}{r.operators.length}"
  s!"Plan '{p.graphName}': {p.regions.length} regions ({accelerated} accelerator, " ++
    s!"{p.regions.length - accelerated} general), " ++
    s!"{p.acceleratorOperatorCount}/{p.operatorCount} operators on accelerator, " ++
    "layout: [" ++ String.intercalate " " layout ++ "]"

def toJson (p : Plan) : Json :=
  .record [
    ("graph_name", .str p.graphName), ("regions", .array (p.regions.map Region.toJson)),
    ("num_operators", .ofNat p.operatorCount)]

end Plan

end HybridCompile
