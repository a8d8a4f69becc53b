import HybridCompile.Console.Run
import HybridCompile.Proofs.Settings.Construction

/-!
# HybridCompile — what commands read

Up to the moment in which `compile` writes its results, commands only look at files and print lines.
What they find is a function of the file tree.

* `Action.Reads` — an action that changes no file, with what it finds.
* `graphIn`, `settingsIn`, `configIn`, `cachedIn` — what is found in a tree.
* `prepare`, `prepared` — `compile` as far as it only reads; `compile_eq` — the command in two steps.
-/

namespace HybridCompile.Console

/-! ## Running -/

section

variable {α β : Type}

theorem run_say (s : String) (screen : Screen) :
    (say s).run screen = (.ok (), ⟨screen.tree, screen.lines ++ [.text s]⟩) :=
  rfl

theorem run_warn (warnings : List String) (screen : Screen) :
    (warn warnings).run screen =
      (.ok (), ⟨screen.tree, screen.lines ++ warnings.map fun w => .warning (Text.inert w)⟩) :=
  rfl

theorem run_files (screen : Screen) : files.run screen = (.ok screen.tree, screen) := rfl

/-- A result that is there is gone on with, and a fault ends the action; either way nothing is
printed. -/
theorem run_orFail {ε : Type} (failure : ε → Failure) (x : Except ε α) (screen : Screen) :
    (orFail failure x).run screen = (x.mapError failure, screen) := by
  cases x <;> rfl

/-- One action after another: the second one begins with what the first one left, if that did not
fail. -/
theorem run_bind (x : Action α) (f : α → Action β) (screen : Screen) :
    (x >>= f).run screen =
      match (x.run screen : Except Failure α × Screen) with
      | (.ok a, screen') => (f a).run screen'
      | (.error failure, screen') => (.error failure, screen') := by
  show ExceptT.bindCont f (x.run screen : Except Failure α × Screen).1
    (x.run screen : Except Failure α × Screen).2 = _
  rcases (x.run screen : Except Failure α × Screen) with ⟨failure | a, screen'⟩ <;> rfl

theorem run_bind_of_ok {x : Action α} {f : α → Action β} {screen screen' : Screen} {a : α}
    (h : x.run screen = (.ok a, screen')) : (x >>= f).run screen = (f a).run screen' := by
  rw [run_bind, h]

theorem run_bind_of_error {x : Action α} {f : α → Action β} {screen screen' : Screen}
    {failure : Failure} (h : x.run screen = (.error failure, screen')) :
    (x >>= f).run screen = (.error failure, screen') := by
  rw [run_bind, h]

/-- A command that succeeds, and one that fails. -/
theorem run_of_ok {tree : FileTree} {words : List String} {command : Command} {screen : Screen}
    (hwords : Command.ofWords words = .ok command)
    (h : command.perform.run ⟨tree, []⟩ = (.ok (), screen)) :
    Console.run tree words = ⟨0, screen.tree, screen.lines, ""⟩ := by
  unfold Console.run
  rw [hwords]
  dsimp only
  rw [h]

theorem run_of_error {tree : FileTree} {words : List String} {command : Command} {screen : Screen}
    {failure : Failure} (hwords : Command.ofWords words = .ok command)
    (h : command.perform.run ⟨tree, []⟩ = (.error failure, screen)) :
    Console.run tree words = ⟨failure.exit, screen.tree, screen.lines, failure.render⟩ := by
  unfold Console.run
  rw [hwords]
  dsimp only
  rw [h]

/-- An action that changes no file, and gives what it finds in them. It may print lines, which
depend on the tree but not on what was printed before. -/
def Action.Reads (x : Action α) (found : FileTree → Except Failure α) : Prop :=
  ∀ screen, ∃ lines, x.run screen = (found screen.tree, ⟨screen.tree, screen.lines ++ lines⟩)

namespace Action.Reads

variable {x : Action α} {found : FileTree → Except Failure α}

theorem pure (a : α) : Reads (Pure.pure a) fun _ => .ok a :=
  fun screen => ⟨[], by rw [List.append_nil]; rfl⟩

/-- One reading action after another finds what the second finds in the same tree. -/
theorem bind {k : α → Action β} {found' : α → FileTree → Except Failure β} (h : x.Reads found)
    (hnext : ∀ a, (k a).Reads (found' a)) :
    (x >>= k).Reads fun tree => found tree >>= fun a => found' a tree := by
  intro screen
  obtain ⟨lines, hrun⟩ := h screen
  show ∃ lines, _ = (found screen.tree >>= fun a => found' a screen.tree, Screen.mk _ _)
  cases hfound : found screen.tree with
  | error failure =>
    rw [hfound] at hrun
    exact ⟨lines, run_bind_of_error hrun⟩
  | ok a =>
    rw [hfound] at hrun
    obtain ⟨lines', hrun'⟩ := hnext a ⟨screen.tree, screen.lines ++ lines⟩
    exact ⟨lines ++ lines', by rw [run_bind_of_ok hrun, hrun', List.append_assoc]; rfl⟩

theorem say (s : String) : (say s).Reads fun _ => .ok () := fun screen => ⟨_, run_say s screen⟩

theorem warn (warnings : List String) : (warn warnings).Reads fun _ => .ok () :=
  fun screen => ⟨_, run_warn warnings screen⟩

theorem files : files.Reads fun tree => .ok tree :=
  fun screen => ⟨[], by rw [List.append_nil]; rfl⟩

theorem orFail {ε : Type} (failure : ε → Failure) (result : Except ε α) :
    (orFail failure result).Reads fun _ => result.mapError failure :=
  fun screen => ⟨[], by rw [run_orFail, List.append_nil]⟩

theorem map (f : α → β) (h : x.Reads found) : (f <$> x).Reads fun tree => f <$> found tree := by
  rw [← bind_pure_comp]
  have hbind := h.bind fun a => .pure (f a)
  intro screen
  obtain ⟨lines, hrun⟩ := hbind screen
  refine ⟨lines, hrun.trans ?_⟩
  show (found screen.tree >>= fun a => Except.ok (f a), _) = (f <$> found screen.tree, _)
  rw [← bind_pure_comp]
  rfl

theorem congr {found' : FileTree → Except Failure α} (h : x.Reads found)
    (heq : ∀ tree, found tree = found' tree) : x.Reads found' := by
  obtain rfl : found = found' := funext heq
  exact h

theorem forM_say (lines : List String) : (lines.forM Console.say).Reads fun _ => .ok () := by
  induction lines with
  | nil => exact .pure ()
  | cons line rest ih => exact .bind (.say line) fun _ => ih

end Action.Reads

end

/-! ## What is found -/

/-- The graph in a file. -/
def graphIn (tree : FileTree) (path : String) : Except Failure ValidGraph :=
  (Manifest.load tree path).2.mapError (.ofManifest path)

/-- The settings that the request in a file describes. -/
def settingsIn (tree : FileTree) (path : String) : Except Failure Settings := do
  let request ← (Request.load tree path).mapError .ofRequest
  request.toSettings.mapError (.ofInvalid path)

/-- The configuration in a file, or the default if none is given. -/
def configIn (tree : FileTree) : Option String → Except Failure Config
  | some path => (Config.load tree path).mapError fun e => .ofCompile (.config e)
  | none => .ok .default

/-- The content of a calibration cache, if there is one. -/
def cacheIn (tree : FileTree) (path : String) : Except Failure (Option Bytes) :=
  if tree.exists? path then
    some <$> (tree.read path).mapError (.ofFile s!"cannot read calibration cache '{path}'")
  else .ok none

/-- The settings with the calibrator of a cache. -/
def cachedIn (tree : FileTree) (s : Settings) : Option String → Except Failure Settings
  | none => .ok s
  | some path => do
    let content ← cacheIn tree path
    (s.withCalibrator (.ofCache "calibration-cache" 1 content)).mapError .ofFault

/-- Loading a graph finds `graphIn`, and prints its warnings. -/
theorem reads_loadGraph (path : String) : (loadGraph path).Reads (graphIn · path) :=
  .bind .files fun tree => .bind (.warn (Manifest.load tree path).1) fun _ =>
    .orFail _ (Manifest.load tree path).2

/-- Loading settings finds `settingsIn`. -/
theorem reads_loadSettings (path : String) : (loadSettings path).Reads (settingsIn · path) :=
  .bind .files fun _ => .bind (.orFail _ _) fun _ => .orFail _ _

/-- Loading a configuration finds `configIn`. -/
theorem reads_loadConfig (path? : Option String) : (loadConfig path?).Reads (configIn · path?) := by
  cases path? with
  | none => exact .pure _
  | some path => exact .bind .files fun _ => .orFail _ _

/-- Giving settings the calibrator of a cache finds `cachedIn`. What is done with the content is the
same whether or not there was a cache. -/
theorem reads_withCache (s : Settings) (path? : Option String) :
    (withCache s path?).Reads (cachedIn · s path?) := by
  cases path? with
  | none => exact .pure s
  | some path =>
    -- what is done with the content, whether there was a cache or not
    have hrest : ∀ content : Option Bytes, Action.Reads
        (do
          let s ← orFail .ofFault (s.withCalibrator (.ofCache "calibration-cache" 1 content))
          warn s.warnings
          return s)
        fun _ => (s.withCalibrator (.ofCache "calibration-cache" 1 content)).mapError .ofFault := by
      intro content
      have hreads := Action.Reads.bind
        (.orFail .ofFault (s.withCalibrator (.ofCache "calibration-cache" 1 content)))
        fun s => .bind (.warn s.warnings) fun _ => .pure s
      refine hreads.congr fun _ => ?_
      cases s.withCalibrator (.ofCache "calibration-cache" 1 content) <;> rfl
    refine @Action.Reads.bind _ _ _ _ _ (fun tree _ => cachedIn tree s (some path)) .files ?_
    intro tree
    unfold cachedIn cacheIn
    dsimp only
    split
    · exact .bind (.map some (.orFail _ _)) hrest
    · exact .bind (.pure none) hrest

/-! ## Compiling in two steps -/

/-- What a compilation is about, once all files are read. -/
structure Inputs where
  session : Session
  graph : ValidGraph
  settings : Settings

/-- What the compilation of the inputs comes to. -/
def Inputs.result (inputs : Inputs) : CompileResult :=
  inputs.session.compile inputs.graph inputs.settings false

def CompileOptions.backend (o : CompileOptions) : ReferenceBackend :=
  { ReferenceBackend.default with rejected := .ofList o.reject }

/-- The inputs in a tree, in the order in which `compile` reads them; the first that cannot be used
is the fault. -/
def inputsIn (tree : FileTree) (o : CompileOptions) : Except Failure Inputs := do
  let config ← configIn tree o.config
  let g ← graphIn tree o.graph
  let s ← cachedIn tree (← settingsIn tree o.settings) o.calibrationCache
  let session ← (Session.make o.support.table.toOracle o.backend.toBackend config).mapError .ofCompile
  return ⟨session, g, s⟩

/-- What `compile` is going to write: the executable, and the calibrator as the builds leave it. -/
def prepared (tree : FileTree) (o : CompileOptions) :
    Except Failure (Executable × Option Calibrator) := do
  let inputs ← inputsIn tree o
  let e ← executableOf inputs.result.outcome
  return (e, inputs.result.progress.calibrator)

/-- What `compile` does before it writes anything. -/
def prepare (o : CompileOptions) : Action (Executable × Option Calibrator) := do
  banner.forM say
  let config ← loadConfig o.config
  let g ← loadGraph o.graph
  let s ← withCache (← loadSettings o.settings) o.calibrationCache
  (inputLines g s o.out).forM say
  let session ← orFail .ofCompile (Session.make o.support.table.toOracle o.backend.toBackend config)
  let result := session.compile g s false
  warn result.progress.warnings
  let e ← orFail id (executableOf result.outcome)
  return (e, result.progress.calibrator)

/-- What `compile` does with its results. -/
def finish (o : CompileOptions) (e : Executable) (calibrator : Option Calibrator) : Action Unit := do
  writeResults o e calibrator
  (resultLines e (joinPath o.out "plan.json")).forM say

theorem compile_eq (o : CompileOptions) :
    compile o = prepare o >>= fun results => finish o results.1 results.2 := by
  simp only [compile, prepare, finish, CompileOptions.backend, bind_assoc, pure_bind]

/-- Preparing changes no file, and finds `prepared`. -/
theorem reads_prepare (o : CompileOptions) : (prepare o).Reads (prepared · o) := by
  have hreads := Action.Reads.bind (.forM_say banner) fun _ =>
    .bind (reads_loadConfig o.config) fun config => .bind (reads_loadGraph o.graph) fun g =>
    .bind (reads_loadSettings o.settings) fun s₀ =>
    .bind (reads_withCache s₀ o.calibrationCache) fun s =>
    .bind (.forM_say (inputLines g s o.out)) fun _ =>
    .bind (.orFail .ofCompile (Session.make o.support.table.toOracle o.backend.toBackend config))
      fun session =>
    .bind (.warn (session.compile g s false).progress.warnings) fun _ =>
    .bind (.orFail id (executableOf (session.compile g s false).outcome)) fun e =>
    .pure (e, (session.compile g s false).progress.calibrator)
  refine hreads.congr fun tree => ?_
  unfold prepared inputsIn Inputs.result
  simp only [bind_assoc, pure_bind, mapError_id]
  rfl

/-! ## What has to be there -/

section

variable {tree : FileTree} {o : CompileOptions}

theorem coherent_of_settingsIn {path : String} {s : Settings} (h : settingsIn tree path = .ok s) :
    s.Coherent := by
  obtain ⟨request, -, hrequest⟩ := bind_eq_ok_iff.mp h
  exact (Settings.Obtainable.requested request (mapError_eq_ok_iff.mp hrequest)).coherent

/-- The settings of a request can be given a calibrator, so only the cache can be at fault. -/
theorem cachedIn_some_eq_ok_iff {s s' : Settings} (hs : s.Coherent) {path : String} :
    cachedIn tree s (some path) = .ok s' ↔ ∃ content, cacheIn tree path = .ok content ∧
      s' = s.calibratedBy (.ofCache "calibration-cache" 1 content) := by
  unfold cachedIn
  rw [bind_eq_ok_iff]
  refine exists_congr fun content => and_congr_right fun _ => ?_
  rw [mapError_eq_ok_iff, Settings.withCalibrator_eq_ok hs, Except.ok.injEq, eq_comm]

/-- Settings with the calibrator of a cache are the settings themselves, or these with what is in
the cache. -/
theorem cachedIn_eq_ok {s s' : Settings} (hs : s.Coherent) {path? : Option String}
    (h : cachedIn tree s path? = .ok s') :
    (path? = none ∧ s' = s) ∨ ∃ path content, path? = some path ∧ cacheIn tree path = .ok content ∧
      s' = s.calibratedBy (.ofCache "calibration-cache" 1 content) := by
  cases path? with
  | none => exact Or.inl ⟨rfl, (Except.ok.inj h).symm⟩
  | some path =>
    obtain ⟨content, hcontent, hs'⟩ := (cachedIn_some_eq_ok_iff hs).mp h
    exact Or.inr ⟨path, content, rfl, hcontent, hs'⟩

/-- All files that `compile` needs can be used. -/
structure Readable (tree : FileTree) (o : CompileOptions) (config : Config) (request : Settings)
    (inputs : Inputs) : Prop where
  config_eq : configIn tree o.config = .ok config
  graph_eq : graphIn tree o.graph = .ok inputs.graph
  request_eq : settingsIn tree o.settings = .ok request
  settings_eq : cachedIn tree request o.calibrationCache = .ok inputs.settings
  session_eq : inputs.session = ⟨o.support.table.toOracle, o.backend.toBackend, config⟩

/-- If the inputs are found, each file that `compile` needs can be used. The binds of `inputsIn` are
the fields. -/
theorem exists_readable {inputs : Inputs} (h : inputsIn tree o = .ok inputs) :
    ∃ config request, Readable tree o config request inputs := by
  unfold inputsIn at h
  obtain ⟨config, hconfig, h⟩ := bind_eq_ok_iff.mp h
  obtain ⟨g, hgraph, h⟩ := bind_eq_ok_iff.mp h
  obtain ⟨request, hrequest, h⟩ := bind_eq_ok_iff.mp h
  obtain ⟨s, hsettings, h⟩ := bind_eq_ok_iff.mp h
  obtain ⟨session, hsession, h⟩ := bind_eq_ok_iff.mp h
  obtain rfl := Except.ok.inj h
  refine ⟨config, request, hconfig, hgraph, hrequest, hsettings, ?_⟩
  have hmake := mapError_eq_ok_iff.mp hsession
  unfold Session.make at hmake
  split at hmake
  · exact (Except.ok.inj hmake).symm
  · cases hmake

theorem executableOf_eq_ok_iff {outcome : CompileOutcome} {e : Executable} :
    executableOf outcome = .ok e ↔ outcome = .ok e := by
  cases outcome <;> simp [executableOf]

/-- Results are prepared exactly if the inputs are found and their compilation gives an executable.
-/
theorem prepared_eq_ok_iff {e : Executable} {calibrator : Option Calibrator} :
    prepared tree o = .ok (e, calibrator) ↔
      ∃ inputs, inputsIn tree o = .ok inputs ∧ inputs.result.outcome = .ok e ∧
        calibrator = inputs.result.progress.calibrator := by
  unfold prepared
  rw [bind_eq_ok_iff]
  refine exists_congr fun inputs => and_congr_right fun _ => ?_
  rw [bind_eq_ok_iff]
  constructor
  · rintro ⟨e', he', h⟩
    obtain ⟨rfl, rfl⟩ := Prod.mk.inj (Except.ok.inj h)
    exact ⟨executableOf_eq_ok_iff.mp he', rfl⟩
  · rintro ⟨he, rfl⟩
    exact ⟨e, executableOf_eq_ok_iff.mpr he, rfl⟩

end

end HybridCompile.Console
