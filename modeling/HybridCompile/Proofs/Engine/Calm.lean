import HybridCompile.Engine.Backend

/-!
# HybridCompile — calm work

Work is calm when it neither fires the caller's signal nor breaks down of itself, whatever it is
answered. The reference backend's work is calm. How calm work comes out does not depend on its
budget, as long as the budget never stops it.

* `Work.Calm`, `Backend.Calm` — calm work, and backends that do no other.
* `Calm.run_withBudget` — the budget does not matter.
* `Work.KeptByLayers`, `KeptByLayers.referenceWork` — what the layers keep holds of all that the
  reference backend does.
* `calm_reference` — the reference backend.
-/

namespace HybridCompile

/-- The work neither fires the caller's signal nor breaks down of itself. -/
def Work.Calm : Work → Prop
  | .done _ => True
  | .fail _ => True
  | .crash => False
  | .checkpoint next => ∀ cause?, (next cause?).Calm
  | .reserve _ _ _ next => ∀ e?, (next e?).Calm
  | .fire _ => False
  | .pause _ next => next.Calm
  | .observe next => next.Calm
  | .readCache next => ∀ content?, (next content?).Calm
  | .drainBatches next => ∀ batches, (next batches).Calm
  | .writeCache _ next => next.Calm

/-- All work of the backend is calm. -/
def Backend.Calm (b : Backend) : Prop := ∀ n o, (b.work n o).Calm

/-- The budget lets a build go on at any time, as long as the signal stays as it is. -/
def BuildBudget.NeverStops (b : BuildBudget) (signal : Bool) : Prop :=
  ∀ clock, b.check signal clock = none

/-- The same state with another budget. -/
def BuildState.withBudget (s : BuildState) (b : BuildBudget) : BuildState :=
  { s with context := { s.context with budget := b } }

/-! Reserving memory neither looks at the budget nor touches it, and leaves the signal alone. -/

section Reserve

variable (c : BuildContext) (size : UInt64) (label : String) (keep : Bool)

theorem reserve_signal : (c.reserve size label keep).1.signal = c.signal := by
  unfold BuildContext.reserve
  split
  · split <;> rfl
  · rfl

theorem reserve_budget : (c.reserve size label keep).1.budget = c.budget := by
  unfold BuildContext.reserve
  split
  · split <;> rfl
  · rfl

theorem reserve_withBudget (b : BuildBudget) :
    ({ c with budget := b } : BuildContext).reserve size label keep =
      ({ (c.reserve size label keep).1 with budget := b }, (c.reserve size label keep).2) := by
  unfold BuildContext.reserve
  dsimp only
  split
  · split <;> rfl
  · rfl

end Reserve

namespace Work.Calm

variable {w : Work}

/-- Calm work leaves the signal as it was. Induction on the work, over all states; a request goes on
in whichever way it is answered (`Reply.resume_of_forall`). -/
theorem run_signal (h : w.Calm) (s : BuildState) :
    (w.run s).1.context.signal = s.context.signal := by
  induction w generalizing s with
  | done => rfl
  | fail => rfl
  | crash => rfl
  | checkpoint next ih => exact ih _ (h _) _
  | reserve size label keep next ih =>
    have hsignal := reserve_signal s.context size label keep
    let s' : BuildState := { s with context := (s.context.reserve size label keep).1 }
    rw [run_reserve]
    exact Reply.resume_of_forall (P := fun w => (w.run s').1.context.signal = s.context.signal)
      (fun e? => (ih e? (h e?) s').trans hsignal) hsignal _
  | fire => exact absurd h id
  | pause _ next ih => exact ih h _
  | observe next ih => exact ih h _
  | readCache next ih => exact ih _ (h _) _
  | drainBatches next ih =>
    unfold Work.run
    split
    · exact ih _ (h _) _
    · exact ih _ (h _) _
  | writeCache _ next ih => exact ih h _

/-- A budget that never stops the work does not shape it. The induction carries along that neither
budget stops the work from the state reached. -/
theorem run_withBudget (h : w.Calm) (s : BuildState) {b : BuildBudget}
    (hs : s.context.budget.NeverStops s.context.signal) (hb : b.NeverStops s.context.signal) :
    w.run (s.withBudget b) = ((w.run s).1.withBudget b, (w.run s).2) := by
  induction w generalizing s with
  | done => rfl
  | fail => rfl
  | crash => rfl
  | checkpoint next ih =>
    have hanswer : s.context.checkpoint.2 = none := hs s.context.clock
    have hanswer' : (s.withBudget b).context.checkpoint.2 = none := hb s.context.clock
    rw [Work.run, Work.run, hanswer, hanswer']
    exact ih none (h none) { s with context := s.context.checkpoint.1 } hs hb
  | reserve size label keep next ih =>
    have hreserve := reserve_withBudget s.context size label keep b
    have hbudget := reserve_budget s.context size label keep
    have hsignal := reserve_signal s.context size label keep
    let s' : BuildState := { s with context := (s.context.reserve size label keep).1 }
    rw [run_reserve, run_reserve, BuildState.withBudget]
    dsimp only
    rw [hreserve]
    have hs' : (s.context.reserve size label keep).1.budget.NeverStops
        (s.context.reserve size label keep).1.signal := by
      rw [hbudget, hsignal]
      exact hs
    have hb' : b.NeverStops (s.context.reserve size label keep).1.signal := by
      rw [hsignal]
      exact hb
    exact Reply.resume_of_forall
      (P := fun w => w.run (s'.withBudget b) = ((w.run s').1.withBudget b, (w.run s').2))
      (fun e? => ih e? (h e?) s' hs' hb') rfl _
  | fire => exact absurd h id
  | pause ms next ih => exact ih h { s with context := s.context.pause ms } hs hb
  | observe next ih =>
    exact ih h { s with journal := s.journal ++ [s.context.snapshot] } hs hb
  | readCache next ih => exact ih _ (h _) s hs hb
  | drainBatches next ih =>
    cases hfound : s.calibrator with
    | none =>
      have hfound' : (s.withBudget b).calibrator = none := hfound
      simp only [Work.run, hfound, hfound']
      exact ih [] (h []) s hs hb
    | some c =>
      have hfound' : (s.withBudget b).calibrator = some c := hfound
      simp only [Work.run, hfound, hfound']
      exact ih _ (h _) { s with calibrator := some c.drain.2 } hs hb
  | writeCache content next ih =>
    exact ih h { s with calibrator := s.calibrator.map (·.writeCache content) } hs hb

end Work.Calm

/-- Where there is no calibrator, no work makes one. Induction on the work, over all states. -/
theorem run_calibrator_eq_none (w : Work) {s : BuildState} (hs : s.calibrator = none) :
    (w.run s).1.calibrator = none := by
  induction w generalizing s with
  | done => exact hs
  | fail => exact hs
  | crash => exact hs
  | checkpoint next ih => exact ih _ hs
  | reserve size label keep next ih =>
    let s' : BuildState := { s with context := (s.context.reserve size label keep).1 }
    rw [Work.run_reserve]
    exact Reply.resume_of_forall (P := fun w => (w.run s').1.calibrator = none)
      (fun e? => ih e? hs) hs _
  | fire next ih => exact ih hs
  | pause _ next ih => exact ih hs
  | observe next ih => exact ih hs
  | readCache next ih => exact ih _ hs
  | drainBatches next ih =>
    rw [Work.run, hs]
    exact ih [] hs
  | writeCache content next ih =>
    refine ih ?_
    show s.calibrator.map _ = none
    rw [hs]
    rfl

/-! ## The reference backend -/

/-- A property of work that giving up has, and that is kept when the steps of a layer come first. -/
structure Work.KeptByLayers (P : Work → Prop) : Prop where
  fail : ∀ e, P (.fail e)
  checkpoint : ∀ {next}, (∀ cause?, P (next cause?)) → P (.checkpoint next)
  reserve : ∀ {size label next}, P next →
    P (.reserve size label true (ReferenceBackend.onceGranted next))
  pause : ∀ {ms next}, P next → P (.pause ms next)

namespace Work.KeptByLayers

open ReferenceBackend

variable {P : Work → Prop} {next : Work}

theorem afterCheckpoint (h : KeptByLayers P) (hnext : P next) : P (afterCheckpoint next) := by
  refine h.checkpoint ?_
  rintro (_ | cause)
  · exact hnext
  · exact h.fail _

theorem withWorkspace (h : KeptByLayers P) (b : ReferenceBackend) (layer : Layer)
    (hnext : P next) : P (b.withWorkspace layer next) := by
  unfold ReferenceBackend.withWorkspace
  split
  · exact hnext
  · exact h.reserve hnext

/-- All layers in front of work keep the property. Induction on the layers. -/
theorem layersWork (h : KeptByLayers P) (b : ReferenceBackend) (hnext : P next)
    (layers : List Layer) : P (b.layersWork next layers) := by
  induction layers with
  | nil => exact hnext
  | cons layer rest ih =>
    refine h.afterCheckpoint ?_
    split
    · exact h.fail _
    · exact h.withWorkspace b layer (h.pause ih)

/-- What the layers keep holds of all that the reference backend does, if it holds of the
calibration that comes after them. -/
theorem referenceWork (h : KeptByLayers P) (b : ReferenceBackend) (n : Network) (o : EngineOptions)
    (hcalibration : ∀ image : Option String → Bytes,
      P (calibrationWork o fun calibration => .done (image calibration))) : P (b.work n o) :=
  h.layersWork b (h.afterCheckpoint (hcalibration _)) n.layers

end Work.KeptByLayers

theorem calm_keptByLayers : Work.KeptByLayers Work.Calm where
  fail _ := True.intro
  checkpoint h := h
  reserve h := by
    rintro (_ | e)
    · exact h
    · exact True.intro
  pause h := h

/-- The reference backend is calm: its layers are kept calm, and so is what it does with the
calibrator. -/
theorem calm_reference (b : ReferenceBackend) : b.toBackend.Calm := by
  intro n o
  refine calm_keptByLayers.referenceWork b n o fun image => ?_
  unfold ReferenceBackend.calibrationWork
  split
  · rintro (_ | content)
    · exact fun batches => True.intro
    · exact True.intro
  · exact True.intro

end HybridCompile
