import HybridCompile.Compile.Error

/-!
# HybridCompile — compile sessions

A session compiles graphs with one oracle, one backend and one configuration. A graph is
partitioned, an engine is built for each region of the accelerator, and the regions are put
together as an executable. The first build that fails ends the compilation: its error is the
answer, and the builds that are still to come are cancelled.

* `CompileOutcome` — how a compilation ends: with an executable, an error, or a breakdown.
* `Session.plan` — partition only.
* `Session.buildAll` — the engines, in a given order.
* `Session.compile` — the whole.
-/

namespace HybridCompile

/-- What compilations share. -/
structure Session where
  oracle : Oracle
  backend : Backend
  config : Config

/-- The settings have to describe as many inputs as the graph has. -/
def checkArity (g : ValidGraph) (s : Settings) : Except CompileError Unit :=
  if s.inputs.length = g.inputs.length then .ok ()
  else .error (.inputArity g.name g.inputs.length s.inputs.length)

/-- The engines of a compilation, as far as they are built. -/
structure Progress where
  /-- The artifacts, by region. -/
  built : List (Nat × Artifact)
  /-- The first error. -/
  error? : Option CompileError
  /-- Whether the caller's signal is fired. -/
  signal : Bool
  calibrator : Option Calibrator
  /-- How many builds the backend was asked for. -/
  started : Nat
  deriving Repr

/-- How a compilation ended. -/
inductive CompileOutcome where
  | ok (executable : Executable)
  | error (e : CompileError)
  /-- It broke down: there is no semaphore with as many permits as builds may run at one time. -/
  | crashed
  deriving DecidableEq, Repr

namespace CompileOutcome

/-- How a compilation ended that did not break down. -/
def ofExcept : Except CompileError Executable → CompileOutcome
  | .ok executable => ok executable
  | .error e => error e

def isOk : CompileOutcome → Bool
  | ok _ => true
  | _ => false

@[simp] theorem ofExcept_ok (executable : Executable) : ofExcept (.ok executable) = ok executable :=
  rfl

@[simp] theorem ofExcept_error (e : CompileError) : ofExcept (.error e) = error e := rfl

@[simp] theorem ofExcept_ne_crashed (result : Except CompileError Executable) :
    ofExcept result ≠ crashed := by
  cases result <;> exact fun h => by cases h

@[simp] theorem ofExcept_eq_ok_iff {result : Except CompileError Executable}
    {executable : Executable} : ofExcept result = ok executable ↔ result = .ok executable := by
  cases result <;> simp

@[simp] theorem ofExcept_eq_error_iff {result : Except CompileError Executable} {e : CompileError} :
    ofExcept result = error e ↔ result = .error e := by
  cases result <;> simp

theorem exists_eq_ok_of_isOk {outcome : CompileOutcome} (h : outcome.isOk = true) :
    ∃ executable, outcome = ok executable := by
  cases outcome with
  | ok executable => exact ⟨executable, rfl⟩
  | error | crashed => cases h

end CompileOutcome

/-- How a compilation ended, and what it left behind. -/
structure CompileResult where
  outcome : CompileOutcome
  progress : Progress

namespace Progress

def start (s : Settings) (signal : Bool) : Progress := ⟨[], none, signal, s.calibrator, 0⟩

/-- Take the result of a build in. Only the first error counts. -/
def add (p : Progress) (region : Nat) (r : BuildResult) : Progress :=
  let p := { p with
    signal := r.signal
    calibrator := r.calibrator
    started := if r.started then p.started + 1 else p.started }
  match r.outcome with
  | .ok artifact => { p with built := p.built ++ [(region, artifact)] }
  | .error e => { p with error? := p.error?.or (some (.ofBuild e)) }

def artifact? (p : Progress) (region : Nat) : Option Artifact := p.built.lookup region

def warnings (p : Progress) : List String :=
  p.error?.toList.map CompileError.notice

end Progress

namespace Session

/-- A session, unless its configuration allows no build. -/
def make (oracle : Oracle) (backend : Backend) (config : Config) : Except CompileError Session :=
  match config.check with
  | .ok () => .ok ⟨oracle, backend, config⟩
  | .error e => .error (.config e)

def plan (session : Session) (g : ValidGraph) (s : Settings) : Except CompileError Plan := do
  checkArity g s
  (partition session.oracle g s).mapError CompileError.partition

/-- The budget of a build: the session's timeout, the caller's signal, and the token that the first
failure fires. -/
def budget (session : Session) (failed : Bool) : BuildBudget :=
  ⟨session.config.buildTimeoutMs.map UInt64.toNat, failed, true⟩

def buildNext (session : Session) (g : ValidGraph) (s : Settings) (p : Progress) (r : Region) :
    Progress :=
  p.add r.index (build session.backend g r { s with calibrator := p.calibrator }
    (session.budget p.error?.isSome) p.signal)

/-- The engines, built one after another in the given order. -/
def buildEach (session : Session) (g : ValidGraph) (s : Settings) (signal : Bool)
    (order : List Region) : Progress :=
  order.foldl (session.buildNext g s) (.start s signal)

/-- The engines, built in the given order. The semaphore that lets the builds in is made before any
of them, also when there is nothing to build; `none` if there is none with so many permits. -/
def buildAll (session : Session) (g : ValidGraph) (s : Settings) (signal : Bool)
    (order : List Region) : Option Progress :=
  if session.config.hasSemaphore then some (session.buildEach g s signal order) else none

/-- The segment of a region, and the metrics with its engine. -/
def assembleRegion (p : Progress) (m : Metrics) (r : Region) :
    Except CompileError (Segment × Metrics) :=
  if r.isAccelerator then
    match p.artifact? r.index with
    | none => .error (.worker r.index)
    | some artifact =>
      let m := match artifact.engine? with
        | some (_, report) => m.record r.operators.length report
        | none => m
      .ok (.ofRegion r artifact, m)
  else .ok (.ofRegion r (.ofGeneral r), m)

/-- The segments of regions, and the metrics with their engines. -/
def assembleRegions (p : Progress) (m : Metrics) :
    List Region → Except CompileError (List Segment × Metrics)
  | [] => .ok ([], m)
  | r :: rest => do
    let (segment, m) ← assembleRegion p m r
    let (segments, m) ← assembleRegions p m rest
    return (segment :: segments, m)

/-- Put the regions of a plan together. -/
def assemble (g : ValidGraph) (plan : Plan) (p : Progress) : Except CompileError Executable := do
  match p.error? with
  | some e => throw e
  | none => do
    -- The metrics are those of the regions in the plan's order, whatever the order of the builds.
    let (segments, metrics) ←
      assembleRegions p (.new plan.regions.length plan.operatorCount) plan.regions
    let executable : Executable := ⟨g.name, g.inputs, g.outputs, segments, metrics⟩
    match executable.check with
    | .ok () => return executable
    | .error fault => throw (.invalidExecutable fault)

/-- Compile a graph, with the engines built in the order that `order` puts the plan's regions in.
`signal` says whether the caller's signal is fired already. -/
def compileInOrder (order : List Region → List Region) (session : Session) (g : ValidGraph)
    (s : Settings) (signal : Bool) : CompileResult :=
  match session.plan g s with
  | .error e => ⟨.error e, .start s signal⟩
  | .ok plan =>
    match session.buildAll g s signal (order plan.acceleratorRegions) with
    | none => ⟨.crashed, .start s signal⟩
    | some progress => ⟨.ofExcept (assemble g plan progress), progress⟩

def compile (session : Session) (g : ValidGraph) (s : Settings) (signal : Bool) : CompileResult :=
  compileInOrder id session g s signal

def debugText (session : Session) : String :=
  s!"Orchestrator \x7b builder: {session.backend.builderText}, " ++
    s!"oracle: {Text.quoted session.oracle.name}, config: {session.config.debugText} \x7d"

end Session

end HybridCompile
