import HybridCompile.Proofs.Compile.Segments
import HybridCompile.Proofs.Console.Results
import HybridCompile.Proofs.Partition.Lowering

/-!
# HybridCompile — what `partition` shows

Both `compile` and `partition` divide a graph into regions, each with settings of its own: those of
`compile` may have a calibrator, and then a graph for int8 is lowered in another way. Where that
matters to no operator, `partition` shows the regions that `compile` builds.

* `planIn`, `planLines`, `showPlan_eq` — `partition` in two steps.
* `Shows` — a region, and the segment that is built for it.
* `shows_what_compile_builds` — the agreement; `fails_where_compile_builds` — where it is not.
-/

namespace HybridCompile.Console

open FileTree

/-! ## The command in two steps -/

/-- The plan that `partition` shows. -/
def planIn (tree : FileTree) (o : PartitionOptions) : Except Failure Plan := do
  let g ← graphIn tree o.graph
  let s ← settingsIn tree o.settings
  (checkArity g s).mapError .ofCompile
  (partition o.support.table.toOracle g s).mapError .ofPartition

/-- What `partition` does before it prints the plan. -/
def loadPlan (o : PartitionOptions) : Action Plan := do
  let g ← loadGraph o.graph
  let s ← loadSettings o.settings
  orFail .ofCompile (checkArity g s)
  orFail .ofPartition (partition o.support.table.toOracle g s)

/-- How a plan is shown. -/
def planLines (json : Bool) (plan : Plan) : List String :=
  if json then [plan.toJson.pretty]
  else
    [s!"  {plan.summary}", "", planRow "Idx" "Target" "Ops" "Inputs" "Outputs",
      "  " ++ String.ofList (List.replicate 86 '-')] ++ plan.regions.flatMap regionRows

theorem showPlan_eq (o : PartitionOptions) :
    showPlan o = loadPlan o >>= fun plan => (planLines o.json plan).forM say := by
  unfold showPlan loadPlan planLines
  simp only [bind_assoc]
  cases o.json <;> rfl

/-- Loading a plan changes no file, and finds `planIn`. -/
theorem reads_loadPlan (o : PartitionOptions) : (loadPlan o).Reads (planIn · o) :=
  .bind (reads_loadGraph o.graph) fun g => .bind (reads_loadSettings o.settings) fun s =>
    .bind (.orFail .ofCompile (checkArity g s)) fun _ => .orFail _ _

/-- A plan that is found is shown, after the warnings on the way to it. -/
theorem run_partition {tree : FileTree} {words : List String} {o : PartitionOptions} {plan : Plan}
    (hwords : Command.ofWords words = .ok (.partition o)) (hplan : planIn tree o = .ok plan) :
    (run tree words).exit = 0 ∧ (run tree words).tree = tree ∧
      ∃ warnings, (run tree words).lines = warnings ++ (planLines o.json plan).map .text := by
  obtain ⟨warnings, hload⟩ := reads_loadPlan o ⟨tree, []⟩
  dsimp only at hload
  rw [hplan] at hload
  have hshow := (congrArg (·.run ⟨tree, []⟩) (showPlan_eq o)).trans
    ((run_bind_of_ok hload).trans (run_forM_say _ _))
  have hrun := run_of_ok hwords hshow
  rw [hrun]
  exact ⟨rfl, rfl, warnings, rfl⟩

/-! ## Agreement -/

/-- A segment is for a region: it has the same place, the same target, the same operators and the
same tensors at its boundary. -/
structure Shows (r : Region) (segment : Segment) : Prop where
  index : r.index = segment.region
  target : r.target = segment.target
  operatorNames : r.operatorNames = segment.operatorNames
  inputs : r.inputs = segment.inputs
  outputs : r.outputs = segment.outputs

theorem contains_frozenOnly (o : SupportOptions) (kind : String) :
    o.table.frozenOnly.contains kind = o.frozenOnly.contains kind := by
  have hempty : (if o.supported.isEmpty then SupportTable.acceptAll
      else .ofKinds o.supported).frozenOnly = .empty := by
    split <;> rfl
  unfold SupportOptions.table SupportTable.withFrozenOnly
  dsimp only
  rw [hempty, NameSet.contains_insertAll, NameSet.contains_empty, Bool.or_false]

/-- The lowering decides about no operator of the graph, or `compile` does not change it. -/
def LoweredAlike (o : CompileOptions) (g : ValidGraph) (s : Settings) : Prop :=
  o.calibrationCache = none ∨ s.int8Enabled = false ∨
    ∀ op ∈ g.operators, op.kind ∈ o.support.frozenOnly → s.fallback.Excludes op

/-- A calibrator makes no difference to the partition where the lowering decides about no operator,
by `partition_eq_of_frozenOnly`. -/
theorem partition_cachedIn {tree : FileTree} {o : CompileOptions} {g : ValidGraph} {s s' : Settings}
    (hs : s.Coherent) (hcached : cachedIn tree s o.calibrationCache = .ok s')
    (halike : LoweredAlike o g s) :
    partition o.support.table.toOracle g s' = partition o.support.table.toOracle g s := by
  rcases cachedIn_eq_ok hs hcached with ⟨-, rfl⟩ | ⟨path, content, hpath, -, rfl⟩
  · rfl
  rcases halike with hnone | hint8 | hfrozen
  · rw [hpath] at hnone
    cases hnone
  · have hlowering : (s.calibratedBy (.ofCache "calibration-cache" 1 content)).lowering =
        s.lowering := by
      rw [hs.derived.lowering_eq, hs.derived.calibrationMode_eq, Settings.calibratedBy, hint8]
      rfl
    exact partition_congr rfl fun op _ => by rw [hlowering]
  · refine SupportTable.partition_eq_of_frozenOnly rfl fun op hop hkind => hfrozen op hop ?_
    rw [contains_frozenOnly] at hkind
    exact List.contains_iff_mem.mp hkind

/-- What `partition` shows is what `compile` builds, where the lowering decides about no operator.
The plan is one by `partition_cachedIn`, and the segments are those of its regions by
`segments_of_compile`. -/
theorem shows_what_compile_builds {tree : FileTree} {words words' : List String}
    {o : CompileOptions} {p : PartitionOptions}
    (hwords : Command.ofWords words = .ok (.compile o))
    (hwords' : Command.ofWords words' = .ok (.partition p)) (hgraph : p.graph = o.graph)
    (hsettings : p.settings = o.settings) (hsupport : p.support = o.support)
    (halike : ∀ g s, graphIn tree o.graph = .ok g → settingsIn tree o.settings = .ok s →
      LoweredAlike o g s)
    (hok : (run tree words).exit = 0) :
    ∃ plan e calibrator, (run tree words').exit = 0 ∧
      (∃ warnings, (run tree words').lines = warnings ++ (planLines p.json plan).map .text) ∧
      prepared tree o = .ok (e, calibrator) ∧
      ((∀ path, o.calibrationCache = some path → target path ≠ target (planPath o)) →
        (run tree words).tree.file? (target (planPath o)) = some (Utf8.encode e.toJson.pretty)) ∧
      List.Forall₂ Shows plan.regions e.segments := by
  rcases run_compile_cases tree hwords with
    ⟨-, -, hfailed, -⟩ | ⟨e, calibrator, done, hprepared, -, hwrote, ⟨-, rfl⟩ | ⟨hfailed, -⟩⟩
  · exact absurd hok hfailed
  · obtain ⟨inputs, hinputs, hcompiled, -⟩ := prepared_eq_ok_iff.mp hprepared
    obtain ⟨config, request, hread⟩ := exists_readable hinputs
    obtain ⟨plan, hplan, hsegments, -⟩ := segments_of_compile hcompiled
    obtain ⟨hcount, hpartition⟩ := plan_eq_ok_iff.mp hplan
    have halike := halike _ _ hread.graph_eq hread.request_eq
    have hcoherent := coherent_of_settingsIn hread.request_eq
    have hinputs_eq : inputs.settings.inputs = request.inputs := by
      rcases cachedIn_eq_ok hcoherent hread.settings_eq with ⟨-, hs⟩ | ⟨_, _, -, -, hs⟩ <;> rw [hs]
      rfl
    have hshown : planIn tree p = .ok plan := by
      rw [hread.session_eq, partition_cachedIn hcoherent hread.settings_eq halike] at hpartition
      rw [hinputs_eq] at hcount
      unfold planIn
      rw [hgraph, hsettings, hsupport]
      refine bind_eq_ok_iff.mpr ⟨_, hread.graph_eq, bind_eq_ok_iff.mpr ⟨_, hread.request_eq, ?_⟩⟩
      refine bind_eq_ok_iff.mpr ⟨(), mapError_eq_ok_iff.mpr ?_, mapError_eq_ok_iff.mpr hpartition⟩
      rw [checkArity, if_pos hcount]
    obtain ⟨hexit, -, hlines⟩ := run_partition hwords' hshown
    refine ⟨plan, e, calibrator, hexit, hlines, hprepared, file?_plan hwrote, ?_⟩
    refine hsegments.imp ?_
    rintro r _ ⟨a, rfl⟩
    exact ⟨rfl, rfl, rfl, rfl, rfl⟩
  · exact absurd hok hfailed

/-! ## Instances

The one operator of the small graph is for int8. With a calibration cache `compile` lowers it as it
lowers any other; `partition` knows of no cache. -/

def smallPartition (frozenOnly : String) : List String :=
  ["partition", "-gg", "-sr", "--frozen-only=" ++ frozenOnly]

/-- Another kind needs frozen modules. -/
theorem shows_what_compile_builds_small :
    ∃ (plan : Plan) (e : Executable) (calibrator : Option Calibrator),
      (run smallTree (smallPartition "m")).exit = 0 ∧
      prepared smallTree (smallOptions "m") = .ok (e, calibrator) ∧
      List.Forall₂ Shows plan.regions e.segments := by
  have hwords : Command.ofWords (smallCompile "m") = .ok (.compile (smallOptions "m")) := by
    decide +kernel
  have hwords' : Command.ofWords (smallPartition "m") =
      .ok (.partition ⟨"g", "r", false, ⟨[], ["m"]⟩⟩) := by
    decide +kernel
  have hok : (run smallTree (smallCompile "m")).exit = 0 := by decide +kernel
  have hgraph : (graphIn smallTree "g").toOption.all (fun g => g.operators.all (·.kind != "m")) =
      true := by
    decide +kernel
  have halike : ∀ g s, graphIn smallTree "g" = .ok g → settingsIn smallTree "r" = .ok s →
      LoweredAlike (smallOptions "m") g s := by
    intro g s hg _
    rw [hg] at hgraph
    refine Or.inr (Or.inr fun op hop hkind => ?_)
    have hne := List.all_eq_true.mp hgraph op hop
    exact absurd (List.mem_singleton.mp hkind) (by simpa using hne)
  obtain ⟨plan, e, calibrator, hexit, -, hprepared, -, hshows⟩ :=
    shows_what_compile_builds hwords hwords' rfl rfl rfl halike hok
  exact ⟨plan, e, calibrator, hexit, hprepared, hshows⟩

/-- The operator's own kind needs frozen modules: `compile` builds an engine for it, and `partition`
finds that it cannot run on the accelerator. -/
theorem fails_where_compile_builds :
    (run smallTree (smallCompile "k")).exit = 0 ∧ (run smallTree (smallPartition "k")).exit = 1 := by
  decide +kernel

end HybridCompile.Console
