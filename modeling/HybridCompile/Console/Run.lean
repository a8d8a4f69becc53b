import HybridCompile.Compile.Session
import HybridCompile.Console.Invocation
import HybridCompile.Files.Tree
import HybridCompile.Graph.Manifest
import HybridCompile.Request.Format
import HybridCompile.Settings.Outline
import HybridCompile.Text.Column
import HybridCompile.Text.Inert

/-!
# HybridCompile — running commands

A command looks at files, prints lines, and at the end may write files. Here it acts on a file tree
that is a value, so that what it does can be stated in full: `run` gives the lines, the tree
afterwards, and the failure if there is one.

* `Failure` — an error with the errors that it says more about, and its text.
* `Console` — a command as it runs.
* `run` — run a command.
-/

namespace HybridCompile

/-- Read a graph from a manifest file: the warnings on the way, and the graph. -/
def Manifest.load (t : FileTree) (path : String) : List String × Except ManifestError ValidGraph :=
  match t.readText path with
  | .error fault => ([], .error (.unreadable fault))
  | .ok text =>
    match Manifest.parse text with
    | .error e => ([], .error e)
    | .ok m => (m.graphWarnings, m.toGraph)

/-- Read a request from a file. -/
def Request.load (t : FileTree) (path : String) : Except RequestError Request :=
  match t.readText path with
  | .error fault => .error (.unreadable path fault)
  | .ok text => Request.parse text

/-- Read a session configuration from a file. -/
def Config.load (t : FileTree) (path : String) : Except ConfigError Config :=
  match t.readText path with
  | .error fault => .error (.unreadable path fault)
  | .ok text => Config.parse text

namespace Console

/-- Why a command ends early. -/
inductive Failure where
  /-- An error, with the errors that it says more about, each about the one before. -/
  | error (text : String) (causes : List String)
  /-- The program breaks down. -/
  | crash (text : String)
  deriving DecidableEq, Repr

namespace Failure

/-- The lines of a cause: its number if it has one, and further lines set in below. -/
def causeText (number? : Option Nat) (cause : String) : String :=
  let (first, next) := match number? with
    | some n => (Text.padLeft 5 (toString n) ++ ": ", "       ")
    | none => ("    ", "    ")
  first ++ String.intercalate ("\n" ++ next) (Text.lines cause)

/-- Causes with their numbers, from `n` on. -/
def numbered (n : Nat) : List String → List String
  | [] => []
  | cause :: rest => causeText (some n) cause :: numbered (n + 1) rest

/-- What is printed of a failure. Several causes are numbered. -/
def render : Failure → String
  | error text causes =>
    let causes := match causes with
      | [] => []
      | [cause] => [causeText none cause]
      | causes => numbered 0 causes
    let below := if causes.isEmpty then "" else
      "\n\nCaused by:\n" ++ String.intercalate "\n" causes
    s!"Error: {text}{below}\n"
  | crash text => text ++ "\n"

/-- What a command that failed reports to its caller. -/
def exit : Failure → Nat
  | error .. => 1
  | crash _ => 101

theorem exit_ne_zero (f : Failure) : f.exit ≠ 0 := by
  cases f <;> simp [exit]

def ofFile (text : String) (fault : FileFault) : Failure := .error text [fault.message]

def ofManifest (path : String) (e : ManifestError) : Failure :=
  .error s!"failed to load graph from '{path}'" <|
    match e with
    | .unreadable fault => [e.message, fault.message]
    | _ => [e.message]

def ofRequest (e : RequestError) : Failure :=
  .error e.message <|
    match e with
    | .unreadable _ fault => [fault.message]
    | _ => []

/-- Settings that are edited are not in order. -/
def ofFault (fault : Fault) : Failure := .error fault.message []

def ofInvalid (path : String) (e : RequestError) : Failure :=
  .error s!"invalid compile request '{path}'" <|
    match e with
    | .invalid fault => [e.message, fault.message]
    | _ => [e.message]

def ofCompile (e : CompileError) : Failure := .error e.message e.cause?.toList

def ofPartition (e : PartitionError) : Failure := .error e.message []

/-- The semaphore of a compilation would need too many permits. -/
def ofSemaphore : Failure :=
  .crash s!"a semaphore may not have more than MAX_PERMITS permits ({Config.maxPermits})"

end Failure

/-- A line that is printed. -/
inductive Line where
  | text (s : String)
  | warning (s : String)
  deriving DecidableEq, Repr

/-- What a command has done so far. -/
structure Screen where
  tree : FileTree
  /-- The lines that were printed. -/
  lines : List Line
  deriving DecidableEq, Repr

/-- A command as it runs. What was done before a failure stays done. -/
abbrev Action (α : Type) := ExceptT Failure (StateM Screen) α

def say (s : String) : Action Unit :=
  modify fun screen => { screen with lines := screen.lines ++ [.text s] }

def warn (warnings : List String) : Action Unit :=
  modify fun screen =>
    { screen with lines := screen.lines ++ warnings.map fun w => .warning (Text.inert w) }

/-- Go on with a result, or fail. -/
def orFail {ε α : Type} (failure : ε → Failure) : Except ε α → Action α
  | .ok a => pure a
  | .error e => throw (failure e)

def files : Action FileTree := do return (← get).tree

/-- Change the files, or fail. -/
def change (text : String) (f : FileTree → Except FileFault FileTree) : Action Unit := do
  let tree ← orFail (.ofFile text) (f (← files))
  modify fun screen => { screen with tree }

/-- Make a directory and those around it, or fail. -/
def makeDirs (path : String) : Action Unit := do
  let (tree, fault?) := (← files).createDirs path
  modify fun screen => { screen with tree }
  match fault? with
  | some fault => throw (.ofFile s!"cannot create '{path}'" fault)
  | none => pure ()

/-! ## Inputs -/

def loadGraph (path : String) : Action ValidGraph := do
  let (warnings, result) := Manifest.load (← files) path
  warn warnings
  orFail (.ofManifest path) result

def loadSettings (path : String) : Action Settings := do
  let request ← orFail .ofRequest (Request.load (← files) path)
  orFail (.ofInvalid path) request.toSettings

def loadConfig : Option String → Action Config
  | some path => do orFail (fun e => .ofCompile (.config e)) (Config.load (← files) path)
  | none => pure .default

/-- The settings with a calibrator that keeps its cache in a file, if there is a path for one. -/
def withCache (s : Settings) : Option String → Action Settings
  | none => pure s
  | some path => do
    let tree ← files
    let content ←
      if tree.exists? path then
        some <$> orFail (.ofFile s!"cannot read calibration cache '{path}'") (tree.read path)
      else pure none
    let s ← orFail .ofFault (s.withCalibrator (.ofCache "calibration-cache" 1 content))
    warn s.warnings
    return s

/-! ## Commands -/

def describe (path : String) : Action Unit := do
  let s ← loadSettings path
  say s.describe

def planRow (index target operators inputs outputs : String) : String :=
  "  " ++ String.intercalate " " [Text.padRight 4 index, Text.padRight 16 target,
    Text.padLeft 5 operators, Text.padRight 28 inputs, Text.padRight 28 outputs]

/-- The rows of a region: its own, and one for each operator that fell back. -/
def regionRows (r : Region) : List String :=
  let names (l : List String) : String := Text.clip 28 (String.intercalate "," l)
  planRow (toString r.index) r.target.label (toString r.operators.length) (names r.inputs)
      (names r.outputs)
    :: (r.operatorNames.zip r.reasons).map fun (name, reason) =>
      s!"         └ {Text.clip 30 name}: {reason.text}"

/-- Show how a graph is divided into regions. -/
def showPlan (o : PartitionOptions) : Action Unit := do
  let g ← loadGraph o.graph
  let s ← loadSettings o.settings
  orFail .ofCompile (checkArity g s)
  let plan ← orFail .ofPartition (partition o.support.table.toOracle g s)
  if o.json then say plan.toJson.pretty
  else
    say s!"  {plan.summary}"
    say ""
    say (planRow "Idx" "Target" "Ops" "Inputs" "Outputs")
    say ("  " ++ String.ofList (List.replicate 86 '-'))
    (plan.regions.flatMap regionRows).forM say

def segmentRow (index target operators engine build : String) : String :=
  "  " ++ String.intercalate " " [Text.padRight 4 index, Text.padRight 16 target,
    Text.padLeft 5 operators, Text.padLeft 12 engine, Text.padLeft 10 build]

def rowOf (s : Segment) : String :=
  let (size, time) := match s.artifact.engine? with
    | some (_, report) =>
      (s!"{report.engineBytes} B", s!"{report.duration.inMillis.toFixed 2}ms")
    | none => ("-", "-")
  segmentRow (toString s.region) s.target.label (toString s.operatorNames.length) size time

/-- The lines above everything that `compile` prints. -/
def banner : List String :=
  ["╔══════════════════════════════════════════════════════╗",
   "║           accel-compile · Hybrid Compiler           ║",
   "╚══════════════════════════════════════════════════════╝", ""]

def inputLines (g : ValidGraph) (s : Settings) (out : String) : List String :=
  let precisions := String.intercalate ", " (s.precisions.map ElementType.label)
  [s!"  Graph:     {g.summary}",
   s!"  Precision: \x7b{precisions}\x7d, device {s.device.key.text}, workspace {s.workspaceSize}",
   s!"  Output:    {out}", ""]

def resultLines (e : Executable) (planPath : String) : List String :=
  [segmentRow "Idx" "Target" "Ops" "Engine" "Build",
   "  " ++ String.ofList (List.replicate 52 '-')]
    ++ e.segments.map rowOf
    ++ ["", s!"  {e.summary}", s!"  {e.metrics.summary}", s!"  Plan written to {planPath}"]

def writeFile (path : String) (content : Bytes) : Action Unit :=
  change s!"cannot write '{path}'" (·.write path content)

/-- Write the engines, the plan, and the calibrator's cache. -/
def writeResults (o : CompileOptions) (e : Executable) (calibrator : Option Calibrator) :
    Action Unit := do
  makeDirs o.out
  e.engines.forM fun (segment, bytes) =>
    writeFile (joinPath o.out s!"region-{segment.region}.engine") bytes
  writeFile (joinPath o.out "plan.json") (Utf8.encode e.toJson.pretty)
  match o.calibrationCache, calibrator.bind Calibrator.readCache with
  | some path, some content =>
    change s!"cannot write calibration cache '{path}'" (·.write path content)
  | _, _ => pure ()

/-- The executable that a compilation ends with, or why it has none. -/
def executableOf : CompileOutcome → Except Failure Executable
  | .ok e => .ok e
  | .error e => .error (.ofCompile e)
  | .crashed => .error .ofSemaphore

def compile (o : CompileOptions) : Action Unit := do
  banner.forM say
  -- Whatever can be wrong with the inputs is found before anything is built.
  let config ← loadConfig o.config
  let g ← loadGraph o.graph
  let s ← withCache (← loadSettings o.settings) o.calibrationCache
  (inputLines g s o.out).forM say
  let backend : ReferenceBackend := { ReferenceBackend.default with rejected := .ofList o.reject }
  let session ← orFail .ofCompile (Session.make o.support.table.toOracle backend.toBackend config)
  let result := session.compile g s false
  warn result.progress.warnings
  -- Up to here nothing was written.
  let e ← orFail id (executableOf result.outcome)
  writeResults o e result.progress.calibrator
  (resultLines e (joinPath o.out "plan.json")).forM say

/-- What a command does. -/
def Command.perform : Command → Action Unit
  | .compile o => Console.compile o
  | .partition o => showPlan o
  | .describe settings => Console.describe settings

/-- What came of a command line. -/
structure Report where
  /-- What the command reports to its caller: 0 for success, 1 for a failure, 2 for no command, 101
  if it broke down. -/
  exit : Nat
  tree : FileTree
  lines : List Line
  /-- What is printed as an error. -/
  complaint : String

/-- What is printed when there is no command. -/
def usageText : String :=
  "Usage: accel-compile [OPTIONS] <COMMAND>\n\nCommands:\n  compile\n  partition\n  describe\n"

/-- Run the command that the words give. -/
def run (tree : FileTree) (words : List String) : Report :=
  match Command.ofWords words with
  | .error .usage => ⟨2, tree, [], usageText⟩
  | .error .help => ⟨0, tree, [.text usageText], ""⟩
  | .error .version => ⟨0, tree, [.text "accel-compile 0.1.0"], ""⟩
  | .ok command =>
    match (command.perform.run ⟨tree, []⟩ : Except Failure Unit × Screen) with
    | (.ok (), screen) => ⟨0, screen.tree, screen.lines, ""⟩
    | (.error failure, screen) => ⟨failure.exit, screen.tree, screen.lines, failure.render⟩

end Console

end HybridCompile
