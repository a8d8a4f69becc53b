import HybridCompile.Settings.Basic

/-!
# HybridCompile — engine options

What a backend is told of the settings: all that shapes the engine itself, and the name of the
calibrator when the engine is calibrated at all.
-/

namespace HybridCompile

/-- The settings as a backend sees them. -/
@[ext] structure EngineOptions where
  precisions : List ElementType
  device : Device
  capability : Capability
  workspaceSize : UInt64
  minTimingIters : UInt32
  avgTimingIters : UInt32
  maxBatchSize : UInt32
  flags : Flags
  lowering : LoweringMode
  calibrationMode : CalibrationMode
  calibratorName : Option String
  deriving DecidableEq, Repr

/-- The calibrator that an engine of these settings uses: none unless int8 is enabled. -/
def Settings.usedCalibrator (s : Settings) : Option Calibrator :=
  if s.int8Enabled then s.calibrator else none

namespace EngineOptions

/-- What a backend is told of settings. -/
def ofSettings (s : Settings) : EngineOptions :=
  { precisions := s.precisions
    device := s.device
    capability := s.capability
    workspaceSize := s.workspaceSize
    minTimingIters := s.minTimingIters
    avgTimingIters := s.avgTimingIters
    maxBatchSize := s.maxBatchSize
    flags := s.flags
    lowering := s.lowering
    calibrationMode := s.calibrationMode
    calibratorName := s.usedCalibrator.map Calibrator.name }

def int8Enabled (o : EngineOptions) : Bool := o.precisions.contains .int8

def toJson (o : EngineOptions) : Json :=
  .record [
    ("enabled_precisions", .array (o.precisions.map ElementType.toJson)),
    ("device", o.device.toJson),
    ("capability", .str o.capability.name),
    ("workspace_size", .ofNat o.workspaceSize.toNat),
    ("num_min_timing_iters", .ofNat o.minTimingIters.toNat),
    ("num_avg_timing_iters", .ofNat o.avgTimingIters.toNat),
    ("max_batch_size", .ofNat o.maxBatchSize.toNat),
    ("sparse_weights", .bool o.flags.sparseWeights),
    ("disable_tf32", .bool o.flags.disableTf32),
    ("refit", .bool o.flags.refit),
    ("debug", .bool o.flags.debug),
    ("strict_types", .bool o.flags.strictTypes),
    ("truncate_long_and_double", .bool o.flags.truncateLongAndDouble),
    ("lowering", o.lowering.toJson),
    ("calibration_mode", o.calibrationMode.toJson),
    ("calibrator_name", .orNull .str o.calibratorName)]

end EngineOptions

end HybridCompile
