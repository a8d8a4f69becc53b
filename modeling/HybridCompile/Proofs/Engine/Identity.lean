import HybridCompile.Proofs.Calibration.Calibrating
import HybridCompile.Proofs.Engine.Reports
import HybridCompile.Proofs.Engine.Restoration

/-!
# HybridCompile — what an engine tells of its build

The reference backend has one engine for a network, its options and a calibration, however long the
build took and whatever else was in the arena; and no engine is that of two. So the bytes of two
engines are equal exactly when the same was built.

* `Work.Gives` — work that has one engine to give, if any.
* `engine_of_run`, `engine_of_buildIn` — the engine of a build.
* `engine_identity` — when two engines are the same.
-/

namespace HybridCompile

/-! ## Calibrations -/

namespace Settings

/-- What is embedded in the engines of the settings: what their calibrator finds, if it is used. -/
def embeddedCalibration (s : Settings) : Option String :=
  s.usedCalibrator.map fun c => c.calibrate.1

variable {s : Settings} {c : Calibrator}

/-- A calibrator is used exactly if int8 is enabled and the calibrator is the one of the settings.
-/
theorem usedCalibrator_eq_some_iff :
    s.usedCalibrator = some c ↔ s.int8Enabled = true ∧ s.calibrator = some c := by
  unfold usedCalibrator
  split
  · next hint8 => simp [hint8]
  · next hint8 => simp [hint8]

end Settings

/-! ## Work -/

/-- Work that has this engine to give, if it ends with one. -/
def Work.Gives (engine : Bytes) (w : Work) : Prop :=
  ∀ state bytes, (w.run state).2 = .engine bytes → bytes = engine

/-- The layers in front of work give no engine of their own; the one to give is that of the work. -/
theorem gives_keptByLayers (engine : Bytes) : Work.KeptByLayers (Work.Gives engine) where
  fail _ _ _ h := by cases h
  checkpoint h state := h state.context.checkpoint.2 _
  reserve {size label next} h state bytes hbytes := by
    rw [Work.run_reserve] at hbytes
    refine Reply.resume_of_forall (P := Work.Gives engine) ?_ (fun _ _ h => by cases h) _ _ bytes hbytes
    rintro (_ | e)
    · exact h
    · exact fun _ _ h => by cases h
  pause h _ := h _

variable {b b' : ReferenceBackend} {g g' : ValidGraph} {r r' : Region} {s s' : Settings}
  {budget budget' : BuildBudget} {arena arena' : Arena} {signal signal' : Bool}
  {bytes bytes' : Bytes} {report report' : BuildReport}

/-- Without a calibrator that is used there is nothing to embed. -/
theorem gives_reference (b : ReferenceBackend) (n : Network) (hnone : s.usedCalibrator = none) :
    (b.work n (.ofSettings s)).Gives (engineBytes n (.ofSettings s) none) := by
  have hlast : (ReferenceBackend.calibrationWork (.ofSettings s) fun calibration =>
      .done (engineBytes n (.ofSettings s) calibration)).Gives
        (engineBytes n (.ofSettings s) none) := by
    have hname : (EngineOptions.ofSettings s).calibratorName = none := by
      show s.usedCalibrator.map Calibrator.name = none
      rw [hnone]
      rfl
    intro state bytes h
    unfold ReferenceBackend.calibrationWork at h
    rw [hname, Option.isSome_none, Bool.and_false, if_neg Bool.false_ne_true] at h
    exact (Ending.engine.inj h).symm
  have hkept := gives_keptByLayers (engineBytes n (.ofSettings s) none)
  exact hkept.layersWork b (hkept.afterCheckpoint hlast) n.layers

/-- If the work ends with an engine, its bytes are those of the network, the options and the
calibration of the settings. The cases are whether a calibrator is used. -/
theorem engine_of_run {n : Network} {context : BuildContext}
    (h : ((b.work n (.ofSettings s)).run ⟨context, s.usedCalibrator, []⟩).2 = .engine bytes) :
    bytes = engineBytes n (.ofSettings s) s.embeddedCalibration := by
  unfold Settings.embeddedCalibration
  cases hused : s.usedCalibrator with
  | none => exact gives_reference b n hused _ _ h
  | some c =>
    obtain ⟨hint8, hc⟩ := Settings.usedCalibrator_eq_some_iff.mp hused
    obtain ⟨context', ⟨ending, hwithout, hrun⟩ | hrun⟩ := calibrates_reference b n hint8 hc context
    · rw [hused, hrun] at h
      exact absurd h (hwithout bytes)
    · rw [hused, hrun] at h
      exact (Ending.engine.inj h).symm

/-! ## Builds -/

/-- The engine of a build is the image of the region's network, with what the calibrator finds. -/
theorem engine_of_buildIn
    (h : (buildIn b.toBackend g r s budget arena signal).outcome = .ok (.engine bytes report)) :
    ∃ n, lower g r s = .ok n ∧
      bytes = engineBytes n (.ofSettings s) s.embeddedCalibration := by
  obtain ⟨n, hn, -, hend, -⟩ := eq_report_of_buildIn h
  exact ⟨n, hn, engine_of_run hend⟩

/-- Two engines of the reference backend are the same bytes exactly when they are of the same
network, with the same options and the same calibration. -/
theorem engine_identity
    (h : (buildIn b.toBackend g r s budget arena signal).outcome = .ok (.engine bytes report))
    (h' : (buildIn b'.toBackend g' r' s' budget' arena' signal').outcome =
      .ok (.engine bytes' report')) :
    ∃ n n', lower g r s = .ok n ∧ lower g' r' s' = .ok n' ∧
      bytes = engineBytes n (.ofSettings s) s.embeddedCalibration ∧
      bytes' = engineBytes n' (.ofSettings s') s'.embeddedCalibration ∧
      (bytes = bytes' ↔ n = n' ∧ EngineOptions.ofSettings s = .ofSettings s' ∧
        s.embeddedCalibration = s'.embeddedCalibration) := by
  obtain ⟨n, hn, rfl⟩ := engine_of_buildIn h
  obtain ⟨n', hn', rfl⟩ := engine_of_buildIn h'
  exact ⟨n, n', hn, hn', rfl, rfl, engineBytes_inj⟩

/-- Settings with a cache that holds some text. -/
def settingsWithCache (text : String) : Settings :=
  { skippingSettings with
    precisions := [.int8], calibrator := some (.ofCache "samples" 1 (some (Utf8.encode text)))
    calibrationMode := .postTraining }

/-- What is embedded is the text in the cache, since `Utf8.decodeLossy` gives it back. -/
theorem embeddedCalibration_settingsWithCache (text : String) :
    (settingsWithCache text).embeddedCalibration = some text := by
  have hused : (settingsWithCache text).usedCalibrator =
      some (.ofCache "samples" 1 (some (Utf8.encode text))) :=
    Settings.usedCalibrator_eq_some_iff.mpr ⟨rfl, rfl⟩
  rw [Settings.embeddedCalibration, hused, Option.map_some, Calibrator.calibrate_of_primed rfl,
    Utf8.decodeLossy_encode]

/-- The reference backend, with a workspace and a delay for each layer. -/
def slowReference : ReferenceBackend := ⟨.empty, false, 16, 3⟩

/-- A cache whose text looks like the end of the image is not taken for it; and what a layer takes
of time and memory is not in the image. -/
theorem engine_identity_quoted :
    ∃ bytes bytes' bytes'' report report' report'',
      (build ReferenceBackend.default.toBackend skippingValid skippingRegion
        (settingsWithCache "\"\x7d") .unbounded false).outcome = .ok (.engine bytes report) ∧
      (build ReferenceBackend.default.toBackend skippingValid skippingRegion
        (settingsWithCache "\\\"\x7d") .unbounded false).outcome = .ok (.engine bytes' report') ∧
      (build slowReference.toBackend skippingValid skippingRegion
        (settingsWithCache "\"\x7d") .unbounded false).outcome = .ok (.engine bytes'' report'') ∧
      bytes ≠ bytes' ∧ bytes = bytes'' := by
  have hengine : ∀ {b : ReferenceBackend} {s : Settings},
      (build b.toBackend skippingValid skippingRegion s .unbounded false).outcome.isOk = true →
        ∃ bytes report, (build b.toBackend skippingValid skippingRegion s .unbounded false).outcome =
          .ok (.engine bytes report) := by
    intro b s hok
    obtain ⟨a, ha⟩ := exists_eq_ok_of_isOk hok
    obtain ⟨bytes, report, rfl, -⟩ := eq_engine_of_build ha
    exact ⟨bytes, report, ha⟩
  obtain ⟨bytes, report, h⟩ := hengine (b := .default) (s := settingsWithCache "\"\x7d")
    (by decide +kernel)
  obtain ⟨bytes', report', h'⟩ := hengine (b := .default) (s := settingsWithCache "\\\"\x7d")
    (by decide +kernel)
  obtain ⟨bytes'', report'', h''⟩ := hengine (b := slowReference) (s := settingsWithCache "\"\x7d")
    (by decide +kernel)
  refine ⟨bytes, bytes', bytes'', report, report', report'', h, h', h'', ?_, ?_⟩
  · obtain ⟨n, n', -, -, -, -, hiff⟩ := engine_identity h h'
    intro heq
    obtain ⟨-, -, hcalibration⟩ := hiff.mp heq
    rw [embeddedCalibration_settingsWithCache, embeddedCalibration_settingsWithCache] at hcalibration
    exact absurd hcalibration (by decide)
  · obtain ⟨n, n'', hn, hn'', -, -, hiff⟩ := engine_identity h h''
    exact hiff.mpr ⟨Except.ok.inj (hn.symm.trans hn''), rfl, rfl⟩

end HybridCompile
