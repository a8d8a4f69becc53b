import HybridCompile.Engine.Build
import HybridCompile.Proofs.Engine.Calm
import HybridCompile.Proofs.Engine.Lowering

/-!
# HybridCompile — how builds come out

Once a region has a network, its build ends with an engine, with an error of the backend, or stopped
from outside; what else an error could say does not happen.

* `Backend.NeverCrashes`, `build_cases` — the endings.
* `build_outcome_eq`, `build_signal`, `build_calibrator` — the build of a calm backend depends on
  nothing that other builds touch.
-/

namespace HybridCompile

/-- The backend does not break down in an arena of its own, whatever it is asked for. -/
def Backend.NeverCrashes (b : Backend) : Prop :=
  ∀ n o region device memory budget signal calibrator,
    ((b.work n o).run ⟨.new region (.new device memory) budget signal, calibrator, []⟩).2 ≠
      .crashed

variable {backend : Backend} {g : ValidGraph} {r : Region} {s : Settings} {n : Network}
variable {budget : BuildBudget} {signal : Bool}

/-- A region with a network is built, unless the budget stops the build before the backend is asked.
-/
theorem buildIn_of_lower (hn : lower g r s = .ok n) (arena : Arena) :
    buildIn backend g r s budget arena signal =
      match budget.check signal 0 with
      | some cause => ⟨.error (.cancelled r.index cause), arena, signal, s.calibrator, [], false⟩
      | none => buildNetwork backend n s budget arena signal := by
  unfold buildIn
  cases budget.check signal 0 <;> simp only [hn]

/-- A build leaves the backend alone, because of `lower` or of the budget, or it has a network and
the backend does its work. -/
theorem buildIn_eq_or (backend : Backend) (g : ValidGraph) (r : Region) (s : Settings)
    (budget : BuildBudget) (arena : Arena) (signal : Bool) :
    (∃ e, buildIn backend g r s budget arena signal =
        ⟨.error e, arena, signal, s.calibrator, [], false⟩) ∨
      ∃ n, lower g r s = .ok n ∧ budget.check signal 0 = none ∧
        buildIn backend g r s budget arena signal =
          buildNetwork backend n s budget arena signal := by
  cases hn : lower g r s with
  | error e =>
    refine Or.inl ⟨.failed (.lower e), ?_⟩
    rw [buildIn, hn]
  | ok n =>
    rw [buildIn_of_lower hn]
    cases budget.check signal 0 with
    | some cause => exact Or.inl ⟨.cancelled r.index cause, rfl⟩
    | none => exact Or.inr ⟨n, rfl, rfl, rfl⟩

theorem build_of_lower (hn : lower g r s = .ok n) :
    build backend g r s budget signal =
      match budget.check signal 0 with
      | some cause => ⟨.error (.cancelled r.index cause), s.ownArena, signal, s.calibrator, [], false⟩
      | none => buildNetwork backend n s budget s.ownArena signal :=
  buildIn_of_lower hn s.ownArena

theorem build_eq_or (backend : Backend) (g : ValidGraph) (r : Region) (s : Settings)
    (budget : BuildBudget) (signal : Bool) :
    (∃ e, build backend g r s budget signal =
        ⟨.error e, s.ownArena, signal, s.calibrator, [], false⟩) ∨
      ∃ n, lower g r s = .ok n ∧
        build backend g r s budget signal = buildNetwork backend n s budget s.ownArena signal := by
  rcases buildIn_eq_or backend g r s budget s.ownArena signal with hstopped | ⟨n, hn, -, hbuild⟩
  · exact Or.inl hstopped
  · exact Or.inr ⟨n, hn, hbuild⟩

/-- The ways in which the build of a region with a network ends: an engine, an error of the backend,
or a cancellation. There is no fourth, as the backend `NeverCrashes`. -/
theorem build_cases (hbackend : backend.NeverCrashes) (hn : lower g r s = .ok n)
    (budget : BuildBudget) (signal : Bool) :
    (∃ bytes report,
        (build backend g r s budget signal).outcome = .ok (.engine bytes report)) ∨
      (∃ name cause, (build backend g r s budget signal).outcome =
        .error (.failed (.backend n.region name cause))) ∨
      ∃ region cause,
        (build backend g r s budget signal).outcome = .error (.cancelled region cause) := by
  rw [build_of_lower hn]
  cases budget.check signal 0 with
  | some cause => exact Or.inr (Or.inr ⟨_, _, rfl⟩)
  | none =>
    have hne := hbackend n (.ofSettings s) n.region s.device.key.text
      (.ofWorkspaceSize s.workspaceSize) budget signal s.usedCalibrator
    unfold buildNetwork
    dsimp only
    cases hend : ((backend.work n (.ofSettings s)).run
      ⟨.new n.region s.ownArena budget signal, s.usedCalibrator, []⟩).2 with
    | engine bytes => exact Or.inl ⟨_, _, rfl⟩
    | failure e =>
      cases e with
      | interrupted cause => exact Or.inr (Or.inr ⟨_, _, rfl⟩)
      | layerRejected layer reason => exact Or.inr (Or.inl ⟨_, _, rfl⟩)
      | outOfMemory e => exact Or.inr (Or.inl ⟨_, _, rfl⟩)
      | internal reason => exact Or.inr (Or.inl ⟨_, _, rfl⟩)
    | crashed => exact absurd hend hne

/-- What a build gives is an engine, and the report on it carries the region's number. All other
ends of `buildNetwork` are errors. -/
theorem eq_engine_of_build {a : Artifact}
    (h : (build backend g r s budget signal).outcome = .ok a) :
    ∃ bytes report, a = .engine bytes report ∧ report.region = r.index := by
  rcases build_eq_or backend g r s budget signal with ⟨e, hstopped⟩ | ⟨n, hn, hbuild⟩
  · rw [hstopped] at h
    cases h
  · have hregion := (lower_eq_ok_iff.mp hn).2.2.2.1
    rw [hbuild] at h
    unfold buildNetwork at h
    dsimp only at h
    cases hend : ((backend.work n (.ofSettings s)).run
      ⟨.new n.region s.ownArena budget signal, s.usedCalibrator, []⟩).2 with
    | engine bytes =>
      rw [hend] at h
      cases h
      exact ⟨bytes, _, rfl, hregion⟩
    | failure e =>
      rw [hend] at h
      cases e <;> cases h
    | crashed =>
      rw [hend] at h
      cases h

/-! ## Builds that share nothing -/

section Calm

variable (hcalm : backend.Calm)

include hcalm

/-- How a calm build comes out does not depend on the budget, if the budget never stops it; by
`Calm.run_withBudget`. -/
theorem build_outcome_eq {budget' : BuildBudget} (hb : budget.NeverStops signal)
    (hb' : budget'.NeverStops signal) :
    (build backend g r s budget signal).outcome = (build backend g r s budget' signal).outcome := by
  cases hn : lower g r s with
  | error e => rw [build, build, buildIn, buildIn, hn]
  | ok n =>
    rw [build_of_lower hn, build_of_lower hn, hb 0, hb' 0]
    let start : BuildState := ⟨.new n.region s.ownArena budget signal, s.usedCalibrator, []⟩
    have hrun : (backend.work n (.ofSettings s)).run
        ⟨.new n.region s.ownArena budget' signal, s.usedCalibrator, []⟩ =
          (((backend.work n (.ofSettings s)).run start).1.withBudget budget',
            ((backend.work n (.ofSettings s)).run start).2) :=
      (hcalm n (.ofSettings s)).run_withBudget start hb hb'
    unfold buildNetwork
    dsimp only
    rw [hrun]
    rfl

theorem build_signal : (build backend g r s budget signal).signal = signal := by
  rcases build_eq_or backend g r s budget signal with ⟨e, hstopped⟩ | ⟨n, _, hbuild⟩
  · rw [hstopped]
  · rw [hbuild]
    exact (hcalm n (.ofSettings s)).run_signal _

end Calm

/-- A calibrator that is not used, or not there, is left as it is. -/
theorem build_calibrator (h : s.int8Enabled = false ∨ s.calibrator = none) :
    (build backend g r s budget signal).calibrator = s.calibrator := by
  rcases build_eq_or backend g r s budget signal with ⟨e, hstopped⟩ | ⟨n, _, hbuild⟩
  · rw [hstopped]
  · rw [hbuild]
    unfold buildNetwork
    dsimp only
    by_cases hint8 : s.int8Enabled = true
    · rw [if_pos hint8]
      have hnone := h.resolve_left (by rw [hint8]; decide)
      have hused : s.usedCalibrator = none := by rw [Settings.usedCalibrator, if_pos hint8, hnone]
      rw [hnone]
      exact run_calibrator_eq_none _ hused
    · rw [if_neg hint8]

end HybridCompile
