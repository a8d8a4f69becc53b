import HybridCompile.Proofs.Partition.Placement
import Mathlib.Data.List.Flatten
import Mathlib.Data.List.Perm.Subperm

/-!
# HybridCompile — stricter settings

One more exclusion splits a block of eligible operators, and its pieces may then be too short for an
engine, so the regions of two plans have little to do with one another. What can be compared is the
place of each operator: under stricter settings no operator moves to the accelerator, because every
block of eligible operators lies within a block that there was before.

* `FallbackPolicy.Tightens` — at least as many exclusions, at least as long regions.
* `Plan.Narrows` — no operator more is on the accelerator.
* `narrows_of_tightens` — the one gives the other, for oracles that accept no operator more.
-/

namespace HybridCompile

/-- A policy that excludes whatever another one does, and asks for regions at least as long. -/
structure FallbackPolicy.Tightens (strict lax : FallbackPolicy) : Prop where
  operators : lax.excludedOperators.toList ⊆ strict.excludedOperators.toList
  modules : lax.excludedModules.toList ⊆ strict.excludedModules.toList
  minRegionSize_le : lax.minRegionSize ≤ strict.minRegionSize

/-- A plan that has nothing on the accelerator that another one has not there. -/
structure Plan.Narrows (strict lax : Plan) : Prop where
  places : ∀ place, strict.Places .accelerator place → lax.Places .accelerator place
  count_le : strict.acceleratorOperatorCount ≤ lax.acceleratorOperatorCount

/-! ## Counting -/

section Count

variable {g : ValidGraph} {plan strict lax : Plan}

theorem mem_acceleratorOperators_iff {place : Nat} :
    place ∈ plan.acceleratorRegions.flatMap Region.operators ↔ plan.Places .accelerator place := by
  simp only [Plan.acceleratorRegions, Plan.Places, Region.isAccelerator, List.mem_flatMap,
    List.mem_filter, beq_iff_eq, and_assoc]

theorem Plan.Divides.nodup_acceleratorOperators (h : plan.Divides g) :
    (plan.acceleratorRegions.flatMap Region.operators).Nodup := by
  have hsub : (plan.acceleratorRegions.flatMap Region.operators).Sublist
      (List.range g.operators.length) := by
    rw [← h.operators_eq]
    exact List.filter_sublist.flatMap _
  exact hsub.nodup List.nodup_range

/-- Where each operator on the accelerator was on it before, there are no more of them: the one list
is a part of the other, up to order, and neither has repetitions. -/
theorem acceleratorOperatorCount_le (h : strict.Divides g)
    (hplaces : ∀ place, strict.Places .accelerator place → lax.Places .accelerator place) :
    strict.acceleratorOperatorCount ≤ lax.acceleratorOperatorCount := by
  apply List.Subperm.length_le
  apply List.subperm_of_subset h.nodup_acceleratorOperators
  intro place hplace
  rw [mem_acceleratorOperators_iff] at hplace ⊢
  exact hplaces place hplace

end Count

/-! ## Blocks under stricter settings -/

section Strict

variable {oracle oracle' : Oracle} {g : ValidGraph} {s s' : Settings}

theorem Eligible.of_tightens {op : Operator} (hpolicy : s'.fallback.Tightens s.fallback)
    (haccepts : oracle'.classify op s'.lowering = .convertible →
      oracle.classify op s.lowering = .convertible)
    (h : Eligible oracle' s' op) : Eligible oracle s op where
  kind hmem := h.kind (hpolicy.operators hmem)
  modules module hpath hmem := h.modules module hpath (hpolicy.modules hmem)
  accepted := haccepts h.accepted

/-- The same by place. Only the operators of the graph are asked about, so the oracles need not be
compared on others. -/
theorem EligibleAt.of_tightens {place : Nat} (hpolicy : s'.fallback.Tightens s.fallback)
    (haccepts : ∀ op ∈ g.operators, oracle'.classify op s'.lowering = .convertible →
      oracle.classify op s.lowering = .convertible)
    (h : EligibleAt oracle' g s' place) : EligibleAt oracle g s place := by
  obtain ⟨op, hop, heligible⟩ := h
  have hmem : op ∈ g.operators := List.mem_of_getElem? hop
  exact ⟨op, hop, heligible.of_tightens hpolicy (haccepts op hmem)⟩

/-- A tighter policy with an oracle that accepts no operator more narrows the plan. A maximal block
of the strict settings is eligible under the lax ones, so by `exists_maximalBlock` it lies in a
block there that is at least as long. -/
theorem narrows_of_tightens (hpolicy : s'.fallback.Tightens s.fallback)
    (haccepts : ∀ op ∈ g.operators, oracle'.classify op s'.lowering = .convertible →
      oracle.classify op s.lowering = .convertible) :
    (Plan.withFallback oracle' g s').Narrows (Plan.withFallback oracle g s) := by
  have hplaces : ∀ place, (Plan.withFallback oracle' g s').Places .accelerator place →
      (Plan.withFallback oracle g s).Places .accelerator place := by
    intro place hplace
    rw [placesAccelerator_withFallback_iff] at hplace ⊢
    obtain ⟨start', stop', hblock', hle, hlt, hsize'⟩ := hplace
    have hstretch : ∀ i, start' ≤ i → i < stop' → EligibleAt oracle g s i := by
      intro i hi hlt
      exact (hblock'.holds i hi hlt).of_tightens hpolicy haccepts
    obtain ⟨start, stop, hblock, hstart, hstop⟩ := exists_maximalBlock hblock'.stop_le hstretch
    have hsize := hpolicy.minRegionSize_le
    exact ⟨start, stop, hblock, by omega, by omega, by omega⟩
  exact ⟨hplaces, acceleratorOperatorCount_le divides_withFallback hplaces⟩

/-- What a table accepts where the modules are not frozen it accepts where they are, too. -/
theorem SupportTable.classify_of_unfrozen {t : SupportTable} {op : Operator}
    {lowering lowering' : LoweringMode}
    (hfrozen : lowering.unfreezeModule = true → lowering'.unfreezeModule = true)
    (h : t.classify op lowering' = .convertible) : t.classify op lowering = .convertible := by
  unfold SupportTable.classify at h ⊢
  split at h
  · cases h
  · next hkind =>
    rw [if_neg]
    · exact h
    · -- the kind does not need frozen modules, or they are frozen under both
      intro hneeds
      rw [Bool.and_eq_true] at hneeds hkind
      exact hkind ⟨hfrozen hneeds.1, hneeds.2⟩

end Strict

/-- Of two settings under which operators may fall back, the stricter ones have no operator on the
accelerator that the others have not there. In particular this holds of one support table that is
asked under a default lowering and under one that does not freeze the modules. -/
theorem partition_antitone {raw : Graph} {g : ValidGraph} {s s' : Settings}
    (h : raw.validate = .ok g) (henabled : s.fallback.enabled = true)
    (henabled' : s'.fallback.enabled = true) (hpolicy : s'.fallback.Tightens s.fallback) :
    (∀ oracle oracle' : Oracle,
      (∀ op ∈ g.operators, oracle'.classify op s'.lowering = .convertible →
        oracle.classify op s.lowering = .convertible) →
      ∃ plan plan', partition oracle g s = .ok plan ∧ partition oracle' g s' = .ok plan' ∧
        plan'.Narrows plan) ∧
    ∀ t : SupportTable,
      (s.lowering.unfreezeModule = true → s'.lowering.unfreezeModule = true) →
      ∃ plan plan', partition t.toOracle g s = .ok plan ∧ partition t.toOracle g s' = .ok plan' ∧
        plan'.Narrows plan := by
  have hne := (Graph.sound_of_validate h).operators_ne_nil
  have hnarrows : ∀ oracle oracle' : Oracle,
      (∀ op ∈ g.operators, oracle'.classify op s'.lowering = .convertible →
        oracle.classify op s.lowering = .convertible) →
      ∃ plan plan', partition oracle g s = .ok plan ∧ partition oracle' g s' = .ok plan' ∧
        plan'.Narrows plan := by
    intro oracle oracle' haccepts
    exact ⟨_, _, partition_of_enabled hne henabled, partition_of_enabled hne henabled',
      narrows_of_tightens hpolicy haccepts⟩
  refine ⟨hnarrows, fun t hfrozen => hnarrows t.toOracle t.toOracle ?_⟩
  intro op _ haccepted
  exact SupportTable.classify_of_unfrozen hfrozen haccepted

/-! ## An instance

`add` needs frozen modules. Where they are not frozen the stretch around it is cut in two, and what
is left of it is too short, as is the operator at the end. -/

/-- Settings under which only `nms` is excluded, and one operator is enough. -/
def laxSettings : Settings :=
  { skippingSettings with fallback := ⟨true, 1, .ofList ["nms"], .empty⟩ }

/-- Settings with more exclusions, a least length of two, and a lowering that does not freeze
modules. -/
def strictSettings : Settings :=
  { skippingSettings with
    precisions := [.int8], fallback := ⟨true, 2, .ofList ["nms", "pool"], .ofList ["Head"]⟩
    calibrationMode := .quantizationAware, lowering := ⟨true, true⟩ }

/-- An accelerator that can do everything, `add` only from a frozen module. -/
def addFrozen : SupportTable := SupportTable.acceptAll.withFrozenOnly ["add"]

/-- The plan under the lax settings, with five operators on the accelerator. -/
def laxPlan : Plan :=
  .ofRuns skippingValid [
    ⟨.accelerator, 0, 2, []⟩, ⟨.general, 2, 3, [.excludedOperator]⟩, ⟨.accelerator, 3, 5, []⟩,
    ⟨.general, 5, 6, [.excludedOperator]⟩, ⟨.accelerator, 6, 7, []⟩]

/-- The plan under the strict ones, with two. -/
def strictPlan : Plan :=
  .ofRuns skippingValid [
    ⟨.accelerator, 0, 2, []⟩,
    ⟨.general, 2, 7, [
      .excludedOperator, .belowMinRegionSize 1 2,
      .unsupported "'add' converts only from a frozen module", .excludedOperator,
      .belowMinRegionSize 1 2]⟩]

/-- Two operators of seven are left to the accelerator where there were five, since under
`strictSettings` more is excluded, a region takes two operators, and `add` is not frozen. -/
theorem partition_antitone_skipping :
    skipping.validate = .ok skippingValid ∧ strictSettings.fallback.Tightens laxSettings.fallback ∧
      laxSettings.lowering = .default ∧ strictSettings.lowering = ⟨true, true⟩ ∧
      partition addFrozen.toOracle skippingValid laxSettings = .ok laxPlan ∧
      partition addFrozen.toOracle skippingValid strictSettings = .ok strictPlan ∧
      strictPlan.Narrows laxPlan ∧ laxPlan.acceleratorOperatorCount = 5 ∧
      strictPlan.acceleratorOperatorCount = 2 ∧
      ∃ plan plan',
        partition SupportTable.acceptAll.toOracle skippingValid laxSettings = .ok plan ∧
        partition (SupportTable.ofKinds ["conv"]).toOracle skippingValid strictSettings =
          .ok plan' ∧
        plan'.Narrows plan := by
  have hvalid : skipping.validate = .ok skippingValid := by decide
  have hpolicy : strictSettings.fallback.Tightens laxSettings.fallback :=
    ⟨by decide, by decide, by decide⟩
  have hlax : partition addFrozen.toOracle skippingValid laxSettings = .ok laxPlan := by decide
  have hstrict : partition addFrozen.toOracle skippingValid strictSettings = .ok strictPlan := by
    decide
  obtain ⟨hany, htable⟩ := partition_antitone hvalid rfl rfl hpolicy
  obtain ⟨plan, plan', hplan, hplan', hnarrows⟩ := htable addFrozen (by decide)
  rw [hlax] at hplan
  rw [hstrict] at hplan'
  cases hplan
  cases hplan'
  refine ⟨hvalid, hpolicy, rfl, rfl, hlax, hstrict, hnarrows, by decide, by decide, ?_⟩
  exact hany SupportTable.acceptAll.toOracle _ fun _ _ _ => rfl

end HybridCompile
