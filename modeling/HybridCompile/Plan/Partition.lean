import HybridCompile.Graph.Dataflow
import HybridCompile.Plan.Basic
import HybridCompile.Plan.Support
import HybridCompile.Settings.Basic

/-!
# HybridCompile — partitioning

A graph is partitioned in three steps. Each operator is looked at alone: may it run on the
accelerator, and if not, why. Neighbours with one target are then joined into runs, and a run for
the accelerator that is too short falls back as a whole and is joined with its neighbours. At last
each run becomes a region, with the tensors that cross its boundary.

* `verdict` — one operator.
* `Run`, `coalesce`, `demote` — runs.
* `boundary` — the tensors that cross the boundary of a run.
* `partition` — the whole.
-/

namespace HybridCompile

/-- Why an operator has to fall back; `none` when it need not. Exclusions come before the oracle,
and of several excluded modules the outermost counts. -/
def verdict (oracle : Oracle) (policy : FallbackPolicy) (lowering : LoweringMode) (op : Operator) :
    Option FallbackReason :=
  if policy.excludesOperator op.kind then some .excludedOperator
  else
    match op.modulePath.find? policy.excludedModules.contains with
    | some module => some (.excludedModule module)
    | none =>
      match oracle.classify op lowering with
      | .convertible => none
      | .unsupported reason => some (.unsupported reason)

/-- Operators `start` up to `stop`, without `stop`, that run in one place. -/
structure Run where
  target : Target
  start : Nat
  stop : Nat
  reasons : List FallbackReason
  deriving DecidableEq, Repr

namespace Run

def length (r : Run) : Nat := r.stop - r.start

/-- The run of one operator. -/
def single (place : Nat) : Option FallbackReason → Run
  | none => ⟨.accelerator, place, place + 1, []⟩
  | some reason => ⟨.general, place, place + 1, [reason]⟩

/-- Runs of one operator each, from `place` on. -/
def singles (place : Nat) : List (Option FallbackReason) → List Run
  | [] => []
  | v :: rest => single place v :: singles (place + 1) rest

/-- Put a run before others. A first run with the same target is joined with it. -/
def join (r : Run) : List Run → List Run
  | [] => [r]
  | next :: rest =>
    if next.target = r.target then
      { r with stop := next.stop, reasons := r.reasons ++ next.reasons } :: rest
    else r :: next :: rest

/-- Join all neighbours that have one target. -/
def coalesce (runs : List Run) : List Run := runs.foldr join []

/-- A run for the accelerator that is too short falls back. -/
def demote (minRegionSize : Nat) (r : Run) : Run :=
  if r.target = .accelerator ∧ r.length < minRegionSize then
    { r with
      target := .general
      reasons := List.replicate r.length (.belowMinRegionSize r.length minRegionSize) }
  else r

/-- The runs that the verdicts on the operators make. -/
def ofVerdicts (minRegionSize : Nat) (verdicts : List (Option FallbackReason)) : List Run :=
  coalesce ((coalesce (singles 0 verdicts)).map (demote minRegionSize))

end Run

/-- Whether a tensor is written by one of the operators from `start` up to `stop`. -/
def ValidGraph.isProducedWithin (g : ValidGraph) (start stop : Nat) (tensor : String) : Bool :=
  ((g.tensor? tensor).bind TensorFacts.producer?).any fun p => start ≤ p && p < stop

/-- Whether a tensor is needed once operator `index` is done. -/
def ValidGraph.isLiveAfter (g : ValidGraph) (index : Nat) (tensor : String) : Bool :=
  (g.tensor? tensor).any (·.liveAfter index)

/-- The tensors that cross the boundary of the operators from `start` up to `stop`: those needed
from outside, and those needed outside. -/
def boundary (g : ValidGraph) (start stop : Nat) : List String × List String :=
  let operators := (g.operators.drop start).take (stop - start)
  -- Each tensor has one producer, so only what is read can occur twice.
  let inputs := operators.flatMap Operator.inputs
  let outputs := operators.flatMap Operator.outputs
  ((inputs.filter fun t => !g.isProducedWithin start stop t).eraseDups,
    outputs.filter (g.isLiveAfter (stop - 1)))

/-- The region of a run. -/
def Run.toRegion (g : ValidGraph) (index : Nat) (r : Run) : Region :=
  let crossing := boundary g r.start r.stop
  { index
    target := r.target
    operators := List.range' r.start r.length
    operatorNames := ((g.operators.drop r.start).take r.length).map Operator.name
    inputs := crossing.1
    outputs := crossing.2
    reasons := r.reasons }

/-- The regions of runs, the first of which has number `index`. -/
def Run.toRegions (g : ValidGraph) (index : Nat) : List Run → List Region
  | [] => []
  | r :: rest => r.toRegion g index :: toRegions g (index + 1) rest

/-- The first operator that has to fall back, with the reason. -/
def firstFallback (verdict : Operator → Option FallbackReason) :
    List Operator → Option (Operator × FallbackReason)
  | [] => none
  | op :: rest =>
    match verdict op with
    | some reason => some (op, reason)
    | none => firstFallback verdict rest

/-- The runs of a graph. Where nothing may fall back the whole graph is one run. -/
def runs (oracle : Oracle) (g : ValidGraph) (s : Settings) : Except PartitionError (List Run) :=
  let verdict := verdict oracle s.fallback s.lowering
  if s.fallback.enabled then
    .ok (Run.ofVerdicts s.fallback.minRegionSize (g.operators.map verdict))
  else
    match firstFallback verdict g.operators with
    | some (op, reason) => .error (.unsupportedGraph op.name op.kind reason)
    | none => .ok [⟨.accelerator, 0, g.operators.length, []⟩]

/-- Divide a graph into regions. -/
def partition (oracle : Oracle) (g : ValidGraph) (s : Settings) : Except PartitionError Plan := do
  if g.operators.isEmpty then throw .emptyGraph
  let plan : Plan :=
    ⟨g.name, Run.toRegions g 0 (← runs oracle g s), g.operators.length⟩
  plan.check
  return plan

end HybridCompile
