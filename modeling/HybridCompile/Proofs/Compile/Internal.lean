import HybridCompile.Proofs.Compile.Assembly
import HybridCompile.Proofs.Engine.Hoarding
import HybridCompile.Proofs.Partition.Placement

/-!
# HybridCompile — errors that cannot happen

A compilation checks what it made itself: the plan, the network of each region, the artifacts it
gathered, the executable. None of these checks ever fails on a validated graph; a compilation ends
with an executable, or with an error that speaks of the input, of the backend, or of a caller who
had enough.

* `CompileError.IsInternal` — the errors of those checks.
* `compile_cases` — the two ways in which a compilation ends.
* `compile_never_internal` — no compilation ends with an internal error.
-/

namespace HybridCompile

/-- The errors that say that the library contradicts itself. A backend that breaks down leads to
one of them too. -/
def CompileError.IsInternal : CompileError → Prop
  | .partition .emptyGraph => True
  | .partition (.invalidPlan _) => True
  | .build _ (.lower _) => True
  | .invalidExecutable _ => True
  | .worker _ => True
  | _ => False

variable {raw : Graph} {g : ValidGraph} {s : Settings} {session : Session} {plan : Plan}

/-- The one error of a partition is that something would have to fall back and may not. -/
theorem partition_eq_error {oracle : Oracle} (hne : g.operators ≠ []) {e : PartitionError}
    (h : partition oracle g s = .error e) :
    ∃ operator kind reason, e = .unsupportedGraph operator kind reason := by
  rw [partition_eq_map hne] at h
  unfold runs at h
  dsimp only at h
  split at h
  · cases h
  · split at h
    · next op reason _ =>
      cases h
      exact ⟨op.name, op.kind, reason, rfl⟩
    · cases h

/-- An error of a plan is none of the library's own: it is the count of the inputs, or what
`partition_eq_error` says of an operator. -/
theorem plan_error_not_internal (hne : g.operators ≠ []) {e : CompileError}
    (h : session.plan g s = .error e) : ¬e.IsInternal := by
  unfold Session.plan checkArity at h
  by_cases hcount : s.inputs.length = g.inputs.length
  · rw [if_pos hcount] at h
    have h : (partition session.oracle g s).mapError CompileError.partition = .error e := h
    cases hpartition : partition session.oracle g s with
    | ok plan =>
      rw [hpartition] at h
      cases h
    | error e' =>
      obtain ⟨operator, kind, reason, rfl⟩ := partition_eq_error hne hpartition
      rw [hpartition] at h
      cases h
      exact id
  · rw [if_neg hcount] at h
    cases h
    exact id

/-- The regions of a plan for the accelerator all have networks when the settings describe every
graph input. -/
theorem exists_lower_of_partition (h : g.Sound) {oracle : Oracle}
    (hplan : partition oracle g s = .ok plan) (hcount : s.inputs.length = g.inputs.length)
    {r : Region} (hr : r ∈ plan.acceleratorRegions) : ∃ n, lower g r s = .ok n := by
  obtain ⟨runs, rfl, htiles, _⟩ := exists_runs_of_partition h.operators_ne_nil hplan
  obtain ⟨hregion, haccelerator⟩ := List.mem_filter.mp hr
  obtain ⟨run, hrun, index, rfl⟩ := Run.mem_toRegions hregion
  obtain ⟨_, _, hle⟩ := htiles.bounds hrun
  have htarget : run.target = .accelerator := beq_iff_eq.mp haccelerator
  rcases lower_toRegion_cases htarget hle index with hn | ⟨e, _, hless⟩
  · exact hn
  · omega

theorem exists_lower_of_plan (h : g.Sound) (hplan : session.plan g s = .ok plan) {r : Region}
    (hr : r ∈ plan.acceleratorRegions) : ∃ n, lower g r s = .ok n := by
  obtain ⟨hcount, hpartition⟩ := plan_eq_ok_iff.mp hplan
  exact exists_lower_of_partition h hpartition hcount hr

/-- The builds of regions that have networks leave engines behind, and no internal error;
`build_cases` tells the ends of one build, and `tally_buildEach` those of all. -/
theorem tally_engines {order : List Region} (hbackend : session.backend.NeverCrashes)
    (hlower : ∀ r ∈ order, ∃ n, lower g r s = .ok n) (signal : Bool) :
    Tally (fun _ => True) (fun _ a => a.isEngine = true) (fun e => ¬e.IsInternal) order
      (session.buildEach g s signal order) := by
  refine tally_buildEach trivial fun r hr p _ _ result hresult => ?_
  subst hresult
  refine ⟨fun a ha => ⟨trivial, ?_⟩, fun e he => ?_⟩
  · obtain ⟨bytes, report, rfl, _⟩ := eq_engine_of_build ha
    rfl
  · obtain ⟨n, hn⟩ := hlower r hr
    -- the calibrator does not matter for the network
    have hn : lower g r { s with calibrator := p.calibrator } = .ok n := hn
    rcases build_cases hbackend hn (session.budget false) p.signal with
      ⟨bytes, report, hok⟩ | ⟨name, cause, herror⟩ | ⟨region, cause, herror⟩
    · rw [hok] at he
      cases he
    · rw [herror] at he
      cases he
      exact id
    · rw [herror] at he
      cases he
      exact id

/-- A compilation ends with an executable of its plan, or with an error that is not internal, or it
breaks down without a semaphore for its builds. -/
theorem compile_cases (h : g.Sound) (hbackend : session.backend.NeverCrashes)
    {order : List Region → List Region} (horder : ∀ rs, (order rs).Perm rs) (signal : Bool) :
    (∃ plan artifacts, session.plan g s = .ok plan ∧
        List.Forall₂ (fun r a => Artifact.isEngine a = r.isAccelerator) plan.regions artifacts ∧
        (session.compileInOrder order g s signal).outcome = .ok (.ofPlan g plan artifacts)) ∨
      (∃ e, (session.compileInOrder order g s signal).outcome = .error e ∧ ¬e.IsInternal) ∨
      (session.compileInOrder order g s signal).outcome = .crashed := by
  cases hplan : session.plan g s with
  | error e =>
    rw [compileInOrder_of_unplanned hplan]
    exact .inr (.inl ⟨e, rfl, plan_error_not_internal h.operators_ne_nil hplan⟩)
  | ok plan =>
    cases hsemaphore : session.config.hasSemaphore with
    | false => exact .inr (.inr (outcome_eq_crashed_iff.mpr ⟨⟨plan, hplan⟩, hsemaphore⟩))
    | true =>
    have hlower : ∀ r ∈ order plan.acceleratorRegions, ∃ n, lower g r s = .ok n := fun r hr =>
      exists_lower_of_plan h hplan ((horder _).mem_iff.mp hr)
    have htally := tally_engines hbackend hlower signal
    rcases htally.compile_cases h hplan hsemaphore horder (fun _ _ hengine => hengine) with
      ⟨artifacts, hgets, hok⟩ | herror
    · have hkinds := hgets.imp fun _ _ hget => isEngine_of_gets (fun _ _ hengine => hengine) hget
      exact Or.inl ⟨_, artifacts, rfl, hkinds, hok⟩
    · exact .inr (.inl herror)

theorem check_ofPlan (h : g.Sound) {oracle : Oracle} (hplan : partition oracle g s = .ok plan)
    {artifacts : List Artifact}
    (hkinds : List.Forall₂ (fun r a => Artifact.isEngine a = r.isAccelerator) plan.regions
      artifacts) : (Executable.ofPlan g plan artifacts).check = .ok () := by
  obtain ⟨runs, rfl, htiles, _⟩ := exists_runs_of_partition h.operators_ne_nil hplan
  exact check_eq_ok_of_mirrors h htiles (forall₂_segments hkinds) _

/-- No compilation ends with an internal error: every plan passes its check, every region for the
accelerator has a network once the settings describe the graph inputs, and every executable passes
its check and is wired. It does not matter in which order the engines are built, nor whether the
caller's signal is fired. -/
theorem compile_never_internal (h : raw.validate = .ok g)
    (hbackend : session.backend.NeverCrashes) {order : List Region → List Region}
    (horder : ∀ rs, (order rs).Perm rs) (signal : Bool) :
    (∀ e, (session.compileInOrder order g s signal).outcome = .error e → ¬e.IsInternal) ∧
      (∀ plan, partition session.oracle g s = .ok plan → plan.check = .ok () ∧
        (s.inputs.length = g.inputs.length →
          ∀ r ∈ plan.acceleratorRegions, ∃ n, lower g r s = .ok n)) ∧
      ∀ executable, (session.compileInOrder order g s signal).outcome = .ok executable →
        executable.check = .ok () ∧ executable.Wired := by
  have hsound := Graph.sound_of_validate h
  have hplans : ∀ plan, partition session.oracle g s = .ok plan → plan.check = .ok () ∧
      (s.inputs.length = g.inputs.length →
        ∀ r ∈ plan.acceleratorRegions, ∃ n, lower g r s = .ok n) := by
    intro plan hplan
    refine ⟨?_, fun hcount r hr => exists_lower_of_partition hsound hplan hcount hr⟩
    obtain ⟨runs, rfl, htiles, halternates⟩ :=
      exists_runs_of_partition hsound.operators_ne_nil hplan
    exact check_ofRuns hsound.operators_ne_nil htiles halternates
  rcases compile_cases (s := s) hsound hbackend horder signal with
    ⟨plan, artifacts, hplan, hkinds, hok⟩ | ⟨e, herror, hordinary⟩ | hcrashed
  · have hcheck := check_ofPlan hsound (plan_eq_ok_iff.mp hplan).2 hkinds
    rw [hok]
    refine ⟨fun e he => (by cases he), hplans, fun executable hexecutable => ?_⟩
    cases hexecutable
    exact ⟨hcheck, wired_of_check hcheck⟩
  · rw [herror]
    refine ⟨fun e' he' => ?_, hplans, fun executable hexecutable => (by cases hexecutable)⟩
    cases he'
    exact hordinary
  · rw [hcrashed]
    exact ⟨fun e he => (by cases he), hplans, fun executable hexecutable => (by cases hexecutable)⟩

/-- A session with the reference backend in which every operator is supported. -/
def referenceSession : Session :=
  ⟨SupportTable.acceptAll.toOracle, ReferenceBackend.default.toBackend, .default⟩

/-- The skipping graph is compiled, and nothing internal is spoken of. -/
theorem compile_never_internal_skipping :
    (referenceSession.compileInOrder List.reverse skippingValid skippingSettings
        false).outcome.isOk = true ∧
      skipping.validate = .ok skippingValid ∧ referenceSession.backend.NeverCrashes ∧
      (∀ rs : List Region, rs.reverse.Perm rs) ∧
      (∀ e, (referenceSession.compileInOrder List.reverse skippingValid skippingSettings
        false).outcome = .error e → ¬e.IsInternal) ∧
      (∀ plan, partition referenceSession.oracle skippingValid skippingSettings = .ok plan →
        plan.check = .ok () ∧
        (skippingSettings.inputs.length = skippingValid.inputs.length →
          ∀ r ∈ plan.acceleratorRegions, ∃ n, lower skippingValid r skippingSettings = .ok n)) ∧
      ∀ executable, (referenceSession.compileInOrder List.reverse skippingValid skippingSettings
        false).outcome = .ok executable → executable.check = .ok () ∧ executable.Wired :=
  have hvalid : skipping.validate = .ok skippingValid := by decide
  have hbackend : referenceSession.backend.NeverCrashes :=
    neverCrashes_reference ReferenceBackend.default
  ⟨by decide +kernel, hvalid, hbackend, List.reverse_perm,
    compile_never_internal hvalid hbackend List.reverse_perm false⟩

end HybridCompile
