import HybridCompile.Proofs.Compile.Assembly
import HybridCompile.Proofs.Engine.Builds
import HybridCompile.Proofs.Partition.Placement
import Mathlib.Algebra.GroupWithZero.Nat

/-!
# HybridCompile — a compilation is its builds, each made alone

With the reference backend, no timeout and no calibrator that builds could share, nothing passes
from one build of a compilation to another. So the compilation comes out as its regions do when each
is built alone, in whatever order they are built, unless there is no semaphore for the builds.

* `Metrics.aggregate` — what the metrics of a compilation should be.
* `tally_alone` — each build of a compilation is the build alone.
* `compile_eq_builds_alone` — the whole; `Session.compile_crowded` — a compilation without a
  semaphore.
-/

namespace HybridCompile

/-! ## Metrics -/

/-- What the builds of some regions, with the reports on them, come to for a plan. -/
def Metrics.aggregate (plan : Plan) (builds : List (Region × BuildReport)) : Metrics where
  totalDuration := .zero
  partitionDuration := .zero
  totalBuildDuration := ⟨(builds.map fun x => x.2.duration.nanos).sum⟩
  peakDeviceBytes := (builds.map fun x => x.2.peakDeviceBytes).foldl max 0
  regionCount := plan.regions.length
  acceleratorRegionCount := plan.acceleratorRegions.length
  operatorCount := plan.operatorCount
  acceleratorOperatorCount := plan.acceleratorOperatorCount
  regionBuilds := builds.map fun x =>
    ⟨x.1.index, x.1.operators.length, x.2.duration, x.2.engineBytes, x.2.peakDeviceBytes⟩

/-- The metrics after the reports on some builds. -/
def Metrics.recordAll (m : Metrics) (builds : List (Region × BuildReport)) : Metrics :=
  builds.foldl (fun m x => m.record x.1.operators.length x.2) m

section Metrics

variable {builds : List (Region × BuildReport)}

/-- Recording builds one by one adds up what they took and lists them in order. Induction on the
builds, over all metrics to begin with. -/
theorem recordAll_eq (h : ∀ x ∈ builds, x.2.region = x.1.index) (m : Metrics) :
    m.recordAll builds =
      { m with
        totalBuildDuration :=
          ⟨m.totalBuildDuration.nanos + (builds.map fun x => x.2.duration.nanos).sum⟩
        peakDeviceBytes := (builds.map fun x => x.2.peakDeviceBytes).foldl max m.peakDeviceBytes
        acceleratorRegionCount := m.acceleratorRegionCount + builds.length
        acceleratorOperatorCount :=
          m.acceleratorOperatorCount + (builds.map fun x => x.1.operators.length).sum
        regionBuilds := m.regionBuilds ++ builds.map fun x =>
          ⟨x.1.index, x.1.operators.length, x.2.duration, x.2.engineBytes,
            x.2.peakDeviceBytes⟩ } := by
  induction builds generalizing m with
  | nil => simp [Metrics.recordAll]
  | cons x rest ih =>
    have hx := h x List.mem_cons_self
    rw [Metrics.recordAll, List.foldl_cons, ← Metrics.recordAll,
      ih fun y hy => h y (List.mem_cons_of_mem x hy)]
    simp [Metrics.record, Duration.add, hx, Nat.add_assoc, Nat.add_comm 1]

/-- Regions with their artifacts are gathered as the reports on their engines are recorded.
Induction on the regions; a general region adds nothing. -/
theorem exists_builds {Engine : Region → Artifact → Prop} {regions : List Region}
    {artifacts : List Artifact}
    (hengine : ∀ r a, Engine r a → ∃ bytes report, a = .engine bytes report ∧ report.region = r.index)
    (h : List.Forall₂ (Gets Engine) regions artifacts) :
    ∃ builds : List (Region × BuildReport),
      builds.map Prod.fst = regions.filter Region.isAccelerator ∧
        (∀ x ∈ builds, x.2.region = x.1.index ∧ ∃ bytes, Engine x.1 (.engine bytes x.2)) ∧
        ∀ m : Metrics, (regions.zip artifacts).foldl (fun m x => m.gather x.1 x.2) m =
          m.recordAll builds := by
  induction h with
  | nil => exact ⟨[], rfl, by simp, fun _ => rfl⟩
  | @cons r a rest others hr _ ih =>
    obtain ⟨builds, hregions, hbuilds, hfold⟩ := ih
    unfold Gets at hr
    by_cases haccelerator : r.isAccelerator = true
    · rw [if_pos haccelerator] at hr
      obtain ⟨bytes, report, rfl, hindex⟩ := hengine r a hr
      refine ⟨(r, report) :: builds, ?_, ?_, fun m => hfold _⟩
      · rw [List.map_cons, hregions, List.filter_cons_of_pos haccelerator]
      · exact List.forall_mem_cons.mpr ⟨⟨hindex, bytes, hr⟩, hbuilds⟩
    · rw [if_neg haccelerator] at hr
      subst hr
      refine ⟨builds, ?_, hbuilds, fun m => hfold _⟩
      rw [hregions, List.filter_cons_of_neg haccelerator]

/-- From the metrics of a new compilation, recording all builds comes to `Metrics.aggregate`. -/
theorem recordAll_new {plan : Plan} (hregions : builds.map Prod.fst = plan.acceleratorRegions)
    (hindex : ∀ x ∈ builds, x.2.region = x.1.index) :
    (Metrics.new plan.regions.length plan.operatorCount).recordAll builds =
      .aggregate plan builds := by
  have hlength : builds.length = plan.acceleratorRegions.length := by
    rw [← hregions, List.length_map]
  have hoperators : (builds.map fun x => x.1.operators.length).sum =
      plan.acceleratorOperatorCount := by
    rw [Plan.acceleratorOperatorCount, ← hregions, List.length_flatMap, List.map_map]
    rfl
  rw [recordAll_eq hindex]
  simp [Metrics.new, Metrics.aggregate, Duration.zero, hlength, hoperators]

end Metrics

/-! ## Builds -/

/-- How the build of a region comes out when nothing is built besides and nothing stops it. -/
def buildAlone (backend : Backend) (g : ValidGraph) (s : Settings) (r : Region) :
    Except BuildError Artifact :=
  (build backend g r s .unbounded false).outcome

variable {raw : Graph} {g : ValidGraph} {s : Settings} {session : Session}
variable {order : List Region → List Region}

/-- Each build of a session is the build alone, as long as none before it has failed. A calm build
leaves the signal, and one that cannot use a calibrator leaves that; so the next build finds what it
would find alone. -/
theorem tally_alone (hcalm : session.backend.Calm) (htimeout : session.config.buildTimeoutMs = none)
    (hshare : s.int8Enabled = false ∨ s.calibrator = none) (regions : List Region) :
    Tally (fun p => p.signal = false ∧ p.calibrator = s.calibrator)
      (fun r a => buildAlone session.backend g s r = .ok a)
      (fun _ => ∃ r ∈ regions, ∃ e, buildAlone session.backend g s r = .error e) regions
      (session.buildEach g s false regions) := by
  have hbudget : (session.budget false).NeverStops false := by
    intro clock
    simp [Session.budget, BuildBudget.check, htimeout]
  have halone : ∀ r, (build session.backend g r s (session.budget false) false).outcome =
      buildAlone session.backend g s r := fun r =>
    build_outcome_eq hcalm hbudget fun clock => by simp [BuildBudget.unbounded, BuildBudget.check]
  refine tally_buildEach ⟨rfl, rfl⟩ fun r hr p _ hp result hresult => ?_
  obtain ⟨hsignal, hcalibrator⟩ := hp
  rw [hsignal, hcalibrator] at hresult
  subst hresult
  rw [halone]
  refine ⟨fun a ha => ⟨?_, ha⟩, fun e he => ⟨r, hr, e, he⟩⟩
  rw [(add_shared _ _ _).1, (add_shared _ _ _).2]
  exact ⟨build_signal hcalm, build_calibrator hshare⟩

/-- The executable of a plan whose regions were each built alone. -/
structure Executable.MadeAlone (e : Executable) (backend : Backend) (g : ValidGraph) (s : Settings)
    (plan : Plan) (builds : List (Region × BuildReport)) : Prop where
  graphName_eq : e.graphName = g.name
  inputs_eq : e.inputs = g.inputs
  outputs_eq : e.outputs = g.outputs
  /-- Each segment is its region, with the engine that the region gets alone or its operators. -/
  segments : List.Forall₂ (fun r segment => ∃ a, segment = Segment.ofRegion r a ∧
    Gets (fun r a => buildAlone backend g s r = .ok a) r a) plan.regions e.segments
  builds_regions : builds.map Prod.fst = plan.acceleratorRegions
  /-- The reports are those of the regions' builds alone. -/
  builds_alone : ∀ x ∈ builds, ∃ bytes, buildAlone backend g s x.1 = .ok (.engine bytes x.2)
  metrics_eq : e.metrics = .aggregate plan builds
  /-- The metrics list the builds in the order of the regions. -/
  increasing : (e.metrics.regionBuilds.map RegionMetrics.region).Pairwise (· < ·)

theorem pairwise_index_lt (runs : List Run) :
    ((Plan.ofRuns g runs).acceleratorRegions.map Region.index).Pairwise (· < ·) := by
  have hsub : ((Plan.ofRuns g runs).acceleratorRegions.map Region.index).Sublist
      ((Plan.ofRuns g runs).regions.map Region.index) := List.filter_sublist.map _
  rw [Plan.ofRuns, Run.map_index_toRegions] at hsub
  exact List.Pairwise.sublist hsub List.pairwise_lt_range'

/-- The executable of regions that each got what it gets alone was made of these builds.
`exists_builds` names them in the order of the regions, and `pairwise_index_lt` puts their
measurements in that order too. -/
theorem exists_madeAlone {backend : Backend} {runs : List Run} {artifacts : List Artifact}
    (h : List.Forall₂ (Gets fun r a => buildAlone backend g s r = .ok a)
      (Plan.ofRuns g runs).regions artifacts) :
    ∃ builds, (Executable.ofPlan g (Plan.ofRuns g runs) artifacts).MadeAlone backend g s
      (Plan.ofRuns g runs) builds := by
  obtain ⟨builds, hfilter, hbuilds, hfold⟩ :=
    exists_builds (fun r a halone => eq_engine_of_build halone) h
  have hregions : builds.map Prod.fst = (Plan.ofRuns g runs).acceleratorRegions := hfilter
  have hmetrics : Metrics.ofPlan (Plan.ofRuns g runs) artifacts =
      .aggregate (Plan.ofRuns g runs) builds := by
    rw [Metrics.ofPlan, hfold, recordAll_new hregions fun x hx => (hbuilds x hx).1]
  have hindices := pairwise_index_lt (g := g) runs
  rw [← hregions, List.map_map] at hindices
  refine ⟨builds, rfl, rfl, rfl, forall₂_segments h, hregions, fun x hx => (hbuilds x hx).2,
    hmetrics, ?_⟩
  show ((Metrics.ofPlan _ artifacts).regionBuilds.map RegionMetrics.region).Pairwise _
  rw [hmetrics, Metrics.aggregate, List.map_map]
  exact hindices

/-- A session with a table of operator kinds, the reference backend, and no timeout. -/
def Session.untimed (table : SupportTable) (b : ReferenceBackend) (parallel : Option UInt64) :
    Session :=
  ⟨table.toOracle, b.toBackend, ⟨parallel, none⟩⟩

/-- With a plan and a semaphore, a compilation puts together what the regions get alone, or one of
them gets nothing. -/
theorem compile_alone_cases (h : g.Sound) (hcalm : session.backend.Calm)
    (htimeout : session.config.buildTimeoutMs = none)
    (hshare : s.int8Enabled = false ∨ s.calibrator = none) (horder : ∀ rs, (order rs).Perm rs)
    {plan : Plan} (hplan : session.plan g s = .ok plan)
    (hsemaphore : session.config.hasSemaphore = true) :
    (∃ artifacts,
        List.Forall₂ (Gets fun r a => buildAlone session.backend g s r = .ok a) plan.regions
          artifacts ∧
        (session.compileInOrder order g s false).outcome = .ok (.ofPlan g plan artifacts)) ∨
      ((∃ e, (session.compileInOrder order g s false).outcome = .error e) ∧
        ∃ r ∈ plan.acceleratorRegions, ∃ e, buildAlone session.backend g s r = .error e) := by
  have htally := tally_alone (g := g) hcalm htimeout hshare (order plan.acceleratorRegions)
  rcases htally.compile_cases h hplan hsemaphore horder (fun r a halone => by
      obtain ⟨bytes, report, rfl, _⟩ := eq_engine_of_build halone
      rfl) with ⟨artifacts, hgets, hok⟩ | ⟨e, herror, r, hr, hfails⟩
  · exact Or.inl ⟨artifacts, hgets, hok⟩
  · exact Or.inr ⟨⟨e, herror⟩, r, (horder _).mem_iff.mp hr, hfails⟩

/-- A compilation with the reference backend and no timeout ends with an executable exactly when the
inputs are as many as the graph's, there is a plan, each of its regions for the accelerator can be
built alone, and there is a semaphore for the builds. The executable is then what the regions get
alone, whatever the order of the builds. Without a semaphore every compilation that has a plan breaks
down, and no other does. -/
theorem compile_eq_builds_alone (h : raw.validate = .ok g)
    (hshare : s.int8Enabled = false ∨ s.calibrator = none) (horder : ∀ rs, (order rs).Perm rs)
    (table : SupportTable) (b : ReferenceBackend) (parallel : Option UInt64) :
    let session := Session.untimed table b parallel
    let outcome := (session.compileInOrder order g s false).outcome
    ((∃ executable, outcome = .ok executable) ↔
      session.config.hasSemaphore = true ∧ s.inputs.length = g.inputs.length ∧
        ∃ plan, session.plan g s = .ok plan ∧
          ∀ r ∈ plan.acceleratorRegions, ∃ a, buildAlone b.toBackend g s r = .ok a) ∧
      (outcome = .crashed ↔
        session.config.hasSemaphore = false ∧ ∃ plan, session.plan g s = .ok plan) ∧
      ∀ executable, outcome = .ok executable →
        ∃ plan builds, session.plan g s = .ok plan ∧
          executable.MadeAlone b.toBackend g s plan builds := by
  intro session outcome
  have hsound := Graph.sound_of_validate h
  have hcases : ∀ plan, session.plan g s = .ok plan → session.config.hasSemaphore = true → _ :=
    fun plan => compile_alone_cases hsound (calm_reference b) rfl hshare horder
  have hmade : ∀ executable, outcome = .ok executable →
      ∃ plan builds, session.plan g s = .ok plan ∧
        executable.MadeAlone b.toBackend g s plan builds := by
    intro executable hok
    obtain ⟨⟨plan, hplan⟩, hsemaphore⟩ := exists_plan_of_compile hok
    rcases hcases plan hplan hsemaphore with ⟨artifacts, hgets, hok'⟩ | ⟨⟨e, he⟩, _⟩
    · obtain rfl := CompileOutcome.ok.inj (hok'.symm.trans hok)
      obtain ⟨runs, rfl, _⟩ :=
        exists_runs_of_partition hsound.operators_ne_nil (plan_eq_ok_iff.mp hplan).2
      obtain ⟨builds, hbuilds⟩ := exists_madeAlone hgets
      exact ⟨_, builds, hplan, hbuilds⟩
    · cases he.symm.trans hok
  refine ⟨⟨?_, ?_⟩, outcome_eq_crashed_iff.trans and_comm, hmade⟩
  · rintro ⟨executable, hok⟩
    obtain ⟨plan, builds, hplan, hbuilds⟩ := hmade executable hok
    refine ⟨(exists_plan_of_compile hok).2, (plan_eq_ok_iff.mp hplan).1, plan, hplan,
      fun r hr => ?_⟩
    rw [← hbuilds.builds_regions] at hr
    obtain ⟨x, hx, rfl⟩ := List.mem_map.mp hr
    obtain ⟨bytes, halone⟩ := hbuilds.builds_alone x hx
    exact ⟨_, halone⟩
  · rintro ⟨hsemaphore, -, plan, hplan, halone⟩
    rcases hcases plan hplan hsemaphore with ⟨artifacts, _, hok⟩ | ⟨_, r, hr, e, he⟩
    · exact ⟨_, hok⟩
    · obtain ⟨a, ha⟩ := halone r hr
      cases ha.symm.trans he

/-! ## Two instances

The skipping graph, with its regions built in the opposite order. -/

/-- The skipping graph is compiled with its regions built backwards, and each is as it is alone. -/
theorem compile_eq_builds_alone_skipping :
    skipping.validate = .ok skippingValid ∧
      (skippingSettings.int8Enabled = false ∨ skippingSettings.calibrator = none) ∧
      (∀ rs : List Region, rs.reverse.Perm rs) ∧
      ∃ executable plan builds, ((Session.untimed .acceptAll .default none).compileInOrder
          List.reverse skippingValid skippingSettings false).outcome = .ok executable ∧
        (Session.untimed .acceptAll .default none).plan skippingValid skippingSettings = .ok plan ∧
        executable.MadeAlone ReferenceBackend.default.toBackend skippingValid skippingSettings plan
          builds := by
  have hvalid : skipping.validate = .ok skippingValid := by decide
  have hshare : skippingSettings.int8Enabled = false ∨ skippingSettings.calibrator = none :=
    Or.inr rfl
  obtain ⟨executable, hok⟩ := CompileOutcome.exists_eq_ok_of_isOk
    (show ((Session.untimed .acceptAll .default none).compileInOrder List.reverse skippingValid
      skippingSettings false).outcome.isOk = true by decide +kernel)
  obtain ⟨-, -, hmade⟩ :=
    compile_eq_builds_alone hvalid hshare List.reverse_perm .acceptAll .default none
  obtain ⟨plan, builds, hplan, halone⟩ := hmade executable hok
  exact ⟨hvalid, hshare, List.reverse_perm, executable, plan, builds, hok, hplan, halone⟩

/-- One permit more than a semaphore holds. -/
def crowded : Session := .untimed .acceptAll .default (some 2305843009213693952)

/-- A compilation whose configuration passes its check, and whose regions can all be built alone,
breaks down all the same. -/
theorem Session.compile_crowded :
    skipping.validate = .ok skippingValid ∧ crowded.config.check = .ok () ∧
      skippingSettings.inputs.length = skippingValid.inputs.length ∧
      crowded.plan skippingValid skippingSettings = .ok skippingPlan ∧
      (∀ r ∈ skippingPlan.acceleratorRegions, ∃ a, buildAlone crowded.backend skippingValid
        skippingSettings r = .ok a) ∧
      (crowded.compile skippingValid skippingSettings false).outcome = .crashed := by
  have halone : skippingPlan.acceleratorRegions.all (fun r => (buildAlone crowded.backend
      skippingValid skippingSettings r).isOk) = true := by decide +kernel
  refine ⟨by decide, by decide, by decide, by decide +kernel, fun r hr => ?_, by decide +kernel⟩
  exact exists_eq_ok_of_isOk (List.all_eq_true.mp halone r hr)

end HybridCompile
