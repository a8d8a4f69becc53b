import HybridCompile.Engine.Artifact
import HybridCompile.Engine.Backend

/-!
# HybridCompile — building engines

The engine of one region is built in three steps: the region is lowered to a network, the budget is
looked at, and the backend does its work in a context of its own. Whatever happens, the memory that
the backend kept is given back.

* `BuildError` — how a build can end without an engine.
* `buildIn` — build in an arena that others use too; `build` — in one of its own.
-/

namespace HybridCompile

/-- Why an engine could not be built. -/
inductive EngineError where
  | lower (e : LowerError)
  | backend (region : Nat) (name : String) (cause : BackendError)
  deriving DecidableEq, Repr

namespace EngineError

def region : EngineError → Nat
  | lower e => e.region
  | backend region _ _ => region

def message : EngineError → String
  | lower e => e.message
  | backend region name cause =>
    s!"backend '{name}' failed to build region {region}: {cause.message}"

end EngineError

/-- How a build ends without an engine. -/
inductive BuildError where
  | failed (e : EngineError)
  | cancelled (region : Nat) (cause : CancelCause)
  /-- The backend broke down. -/
  | crashed (region : Nat)
  deriving DecidableEq, Repr

namespace BuildError

def region : BuildError → Nat
  | failed e => e.region
  | cancelled region _ => region
  | crashed region => region

def isCancelled : BuildError → Bool
  | cancelled _ _ => true
  | _ => false

def message : BuildError → String
  | failed e => e.message
  | cancelled region cause => s!"build of region {region} {cause.text}"
  | crashed region => s!"build of region {region} broke down"

end BuildError

/-- How a build ended, and what it left behind. -/
structure BuildResult where
  outcome : Except BuildError Artifact
  arena : Arena
  /-- Whether the caller's signal is fired. -/
  signal : Bool
  calibrator : Option Calibrator
  journal : List Snapshot
  /-- Whether the backend was asked to do anything. -/
  started : Bool

/-- The outcome of a build whose work has ended. -/
def outcomeOf (backend : Backend) (n : Network) (before after : Arena) (clock : Nat) :
    Ending → Except BuildError Artifact
  | .engine bytes =>
    .ok (.engine bytes {
      region := n.region
      backend := backend.name
      network := n.name
      duration := .ofMillis clock
      engineBytes := bytes.length
      peakDeviceBytes := after.stats.peakLiveBytes
      reservations := after.stats.reservations - before.stats.reservations
      inputs := n.inputs })
  | .failure (.interrupted cause) => .error (.cancelled n.region cause)
  | .failure e => .error (.failed (.backend n.region backend.name e))
  | .crashed => .error (.crashed n.region)

/-- Build the engine of a network. -/
def buildNetwork (backend : Backend) (n : Network) (s : Settings) (budget : BuildBudget)
    (arena : Arena) (signal : Bool) : BuildResult :=
  let work := backend.work n (.ofSettings s)
  let (state, ending) :=
    work.run ⟨.new n.region arena budget signal, s.usedCalibrator, []⟩
  let after := state.context.close
  { outcome := outcomeOf backend n arena after state.context.clock ending
    arena := after
    signal := state.context.signal
    -- Without int8 the backend never saw the calibrator.
    calibrator := if s.int8Enabled then state.calibrator else s.calibrator
    journal := state.journal
    started := true }

/-- Build the engine of a region, in an arena that may hold other reservations. `signal` says
whether the caller's signal is fired already. -/
def buildIn (backend : Backend) (g : ValidGraph) (r : Region) (s : Settings) (budget : BuildBudget)
    (arena : Arena) (signal : Bool) : BuildResult :=
  let stopped (e : BuildError) : BuildResult :=
    ⟨.error e, arena, signal, s.calibrator, [], false⟩
  match lower g r s with
  | .error e => stopped (.failed (.lower e))
  | .ok n =>
    -- A build that may not begin leaves the backend alone.
    match budget.check signal 0 with
    | some cause => stopped (.cancelled r.index cause)
    | none => buildNetwork backend n s budget arena signal

/-- The arena of a build that shares none: that of the device, bounded by the workspace size. -/
def Settings.ownArena (s : Settings) : Arena :=
  .new s.device.key.text (.ofWorkspaceSize s.workspaceSize)

/-- Build the engine of a region, in an arena of its own. -/
def build (backend : Backend) (g : ValidGraph) (r : Region) (s : Settings) (budget : BuildBudget)
    (signal : Bool) : BuildResult :=
  buildIn backend g r s budget s.ownArena signal

def Backend.builderText (b : Backend) : String :=
  s!"EngineBuilder \x7b backend: {Text.quoted b.name} \x7d"

end HybridCompile
