import HybridCompile.Proofs.Dataflow.Table
import HybridCompile.Proofs.Partition.Regions

/-!
# HybridCompile — where an operator runs

An operator is eligible when nothing speaks against it. Where operators may fall back, it runs on
the accelerator exactly when it stands among enough eligible operators in a row.
-/

namespace HybridCompile

/-- Nothing speaks against running an operator on the accelerator. -/
structure Eligible (oracle : Oracle) (s : Settings) (op : Operator) : Prop where
  kind : op.kind ∉ s.fallback.excludedOperators.toList
  modules : ∀ module ∈ op.modulePath, module ∉ s.fallback.excludedModules.toList
  accepted : oracle.classify op s.lowering = .convertible

/-- The graph has an operator in this place, and nothing speaks against it. -/
def EligibleAt (oracle : Oracle) (g : ValidGraph) (s : Settings) (place : Nat) : Prop :=
  ∃ op, g.operators[place]? = some op ∧ Eligible oracle s op

variable {oracle : Oracle} {g : ValidGraph} {s : Settings}

theorem FallbackPolicy.excludesOperator_iff {policy : FallbackPolicy} {kind : String} :
    policy.excludesOperator kind = true ↔ kind ∈ policy.excludedOperators.toList :=
  NameSet.contains_iff

/-- The function `verdict` has nothing to say of an operator exactly if the operator is eligible.
The cases are the order in which the kind, the modules and the oracle are asked. -/
theorem verdict_eq_none_iff {op : Operator} :
    verdict oracle s.fallback s.lowering op = none ↔ Eligible oracle s op := by
  constructor
  · intro h
    unfold verdict at h
    split at h
    · cases h
    · next hkind =>
      split at h
      · cases h
      · next hmodules =>
        split at h
        · next haccepted =>
          have hmodules' := List.find?_eq_none.mp hmodules
          exact ⟨mt FallbackPolicy.excludesOperator_iff.mpr hkind,
            fun m hm => mt NameSet.contains_iff.mpr (hmodules' m hm), haccepted⟩
        · cases h
  · rintro ⟨hkind, hmodules, haccepted⟩
    have hmodules' : op.modulePath.find? s.fallback.excludedModules.contains = none :=
      List.find?_eq_none.mpr fun m hm => mt NameSet.contains_iff.mp (hmodules m hm)
    unfold verdict
    rw [if_neg (mt FallbackPolicy.excludesOperator_iff.mp hkind), hmodules']
    simp only [haccepted]

theorem getElem?_verdicts_eq_none_iff {place : Nat} :
    (g.operators.map (verdict oracle s.fallback s.lowering))[place]? = some none ↔
      EligibleAt oracle g s place := by
  rw [List.getElem?_map, Option.map_eq_some_iff]
  exact exists_congr fun op => and_congr_right fun _ => verdict_eq_none_iff

/-- Regions place as their runs do. -/
theorem exists_region_iff {runs : List Run} {target : Target} {place : Nat} :
    (∃ r ∈ (Plan.ofRuns g runs).regions, r.target = target ∧ place ∈ r.operators) ↔
      Run.Places runs target place := by
  have hcovers : ∀ (r : Run) (k : Nat), place ∈ (r.toRegion g k).operators ↔ r.Covers place :=
    fun _ _ => Run.mem_range'_iff
  constructor
  · rintro ⟨region, hregion, htarget, hplace⟩
    obtain ⟨r, hr, k, rfl⟩ := Run.mem_toRegions hregion
    exact ⟨r, hr, htarget, (hcovers r k).mp hplace⟩
  · rintro ⟨r, hr, htarget, hplace⟩
    obtain ⟨k, hk⟩ := Run.exists_mem_toRegions hr g 0
    exact ⟨_, hk, htarget, (hcovers r k).mpr hplace⟩

/-- The plan has the operator at a place run on the target. -/
def Plan.Places (plan : Plan) (target : Target) (place : Nat) : Prop :=
  ∃ r ∈ plan.regions, r.target = target ∧ place ∈ r.operators

/-- The plan of a graph whose operators may fall back. -/
def Plan.withFallback (oracle : Oracle) (g : ValidGraph) (s : Settings) : Plan :=
  .ofRuns g (Run.ofVerdicts s.fallback.minRegionSize
    (g.operators.map (verdict oracle s.fallback s.lowering)))

/-- Where operators may fall back there always is a plan, and it is `Plan.withFallback`. -/
theorem partition_of_enabled (hne : g.operators ≠ []) (henabled : s.fallback.enabled = true) :
    partition oracle g s = .ok (Plan.withFallback oracle g s) := by
  rw [partition_eq_map hne, runs, if_pos henabled]
  rfl

theorem divides_withFallback : (Plan.withFallback oracle g s).Divides g :=
  divides_ofRuns (tiles_verdicts _ _ _) (Run.alternates_coalesce _)

/-- In that plan an operator is on the accelerator exactly if its block is long enough;
`Run.places_ofVerdicts_iff` with verdicts read as `EligibleAt`. -/
theorem placesAccelerator_withFallback_iff {place : Nat} :
    (Plan.withFallback oracle g s).Places .accelerator place ↔
      ∃ start stop, MaximalBlock (EligibleAt oracle g s) g.operators.length start stop ∧
        start ≤ place ∧ place < stop ∧ s.fallback.minRegionSize ≤ stop - start := by
  rw [Plan.Places, Plan.withFallback, exists_region_iff, Run.places_ofVerdicts_iff,
    List.length_map]
  simp only [getElem?_verdicts_eq_none_iff]

/-- Where operators may fall back there always is a plan. It divides the graph, and an operator is in
a region for the accelerator exactly when the longest stretch of eligible operators around it has as
many as the policy asks for. -/
theorem partition_places_blocks {raw : Graph} (h : raw.validate = .ok g)
    (henabled : s.fallback.enabled = true) :
    ∃ plan, partition oracle g s = .ok plan ∧ plan.Divides g ∧
      ∀ place, (∃ r ∈ plan.regions, r.target = .accelerator ∧ place ∈ r.operators) ↔
        ∃ start stop, MaximalBlock (EligibleAt oracle g s) g.operators.length start stop ∧
          start ≤ place ∧ place < stop ∧ s.fallback.minRegionSize ≤ stop - start := by
  have hne := (Graph.sound_of_validate h).operators_ne_nil
  let verdicts := g.operators.map (verdict oracle s.fallback s.lowering)
  have hruns : runs oracle g s = .ok (Run.ofVerdicts s.fallback.minRegionSize verdicts) := by
    rw [runs]
    exact if_pos henabled
  obtain ⟨htiles, halternates⟩ := runs_eq_ok hne hruns
  refine ⟨Plan.ofRuns g (Run.ofVerdicts s.fallback.minRegionSize verdicts), ?_,
    divides_ofRuns htiles halternates, fun place => ?_⟩
  · rw [partition_eq_map hne, hruns]
    rfl
  · rw [exists_region_iff, Run.places_ofVerdicts_iff, List.length_map]
    simp only [verdicts, getElem?_verdicts_eq_none_iff]

/-! ## An instance

A graph with two stretches of accelerator work and a third that is too short to be worth an engine.
Tensor `t0` skips over a region, and the graph input `x` is handed back as well. -/

/-- Seven operators, of which two have a kind that will be excluded. -/
def skipping : Graph :=
  { name := "skipping", inputs := ["x"],
    operators := [
      ⟨"a", "conv", [], 0, ["x"], ["t0"]⟩, ⟨"b", "relu", [], 1, ["t0"], ["t1"]⟩,
      ⟨"c", "nms", [], 2, ["t1"], ["t2"]⟩, ⟨"d", "conv", [], 3, ["t2"], ["t3"]⟩,
      ⟨"e", "add", [], 4, ["t3", "t0"], ["t4"]⟩, ⟨"f", "nms", [], 5, ["t4"], ["t5"]⟩,
      ⟨"g", "relu", [], 6, ["t5"], ["y"]⟩],
    outputs := ["y", "t1", "x"] }

/-- What validation makes of the graph. -/
def skippingValid : ValidGraph :=
  { skipping with
    tensors := [
      ("y", ⟨some 6, none, true⟩), ("t5", ⟨some 5, some 6, false⟩),
      ("t4", ⟨some 4, some 5, false⟩), ("t3", ⟨some 3, some 4, false⟩),
      ("t2", ⟨some 2, some 3, false⟩), ("t1", ⟨some 1, some 2, true⟩),
      ("t0", ⟨some 0, some 4, false⟩), ("x", ⟨none, some 0, true⟩)] }

/-- Settings under which `nms` falls back, and stretches of one operator do too. -/
def skippingSettings : Settings :=
  { inputs := [⟨.fixed [1, 8], .float, .contiguous, rfl⟩], precisions := [.float],
    device := .default, fallback := ⟨true, 2, .ofList ["nms"], .empty⟩, capability := .standard,
    workspaceSize := 0, minTimingIters := 2, avgTimingIters := 1, maxBatchSize := 0, flags := .off,
    calibrator := none, calibrationMode := .notRequired, lowering := .default }

/-- The plan. The last operator falls back together with the `nms` before it. -/
def skippingPlan : Plan :=
  .ofRuns skippingValid [
    ⟨.accelerator, 0, 2, []⟩, ⟨.general, 2, 3, [.excludedOperator]⟩, ⟨.accelerator, 3, 5, []⟩,
    ⟨.general, 5, 7, [.excludedOperator, .belowMinRegionSize 1 2]⟩]

/-- With a least length of two, the two stretches of two operators are on the accelerator and the
last operator is not. -/
theorem partition_places_blocks_skipping :
    skipping.validate = .ok skippingValid ∧ skippingSettings.fallback.enabled = true ∧
      ∃ plan, partition SupportTable.acceptAll.toOracle skippingValid skippingSettings = .ok plan ∧
        plan.Divides skippingValid ∧
        ∀ place, (∃ r ∈ plan.regions, r.target = .accelerator ∧ place ∈ r.operators) ↔
          ∃ start stop, MaximalBlock
            (EligibleAt SupportTable.acceptAll.toOracle skippingValid skippingSettings) 7
              start stop ∧
            start ≤ place ∧ place < stop ∧ 2 ≤ stop - start :=
  have hvalid : skipping.validate = .ok skippingValid := by decide
  ⟨hvalid, rfl, partition_places_blocks hvalid rfl⟩

end HybridCompile
