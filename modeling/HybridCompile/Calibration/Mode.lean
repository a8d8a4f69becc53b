import HybridCompile.Json.Basic

/-!
# HybridCompile — calibration and lowering

Whether and how an engine is calibrated follows from two facts: whether int8 is among its
precisions, and whether there is a calibrator. Int8 without a calibrator means that the graph was
trained for it, and such a graph has to be lowered with its quantisation steps untouched.
-/

namespace HybridCompile

/-- How a graph is made ready for the accelerator. -/
@[ext] structure LoweringMode where
  unfreezeModule : Bool
  disableCse : Bool
  deriving DecidableEq, Repr

namespace LoweringMode

def default : LoweringMode := ⟨false, false⟩

instance : Inhabited LoweringMode := ⟨default⟩

def toJson (m : LoweringMode) : Json :=
  .record [("unfreeze_module", .bool m.unfreezeModule), ("disable_cse", .bool m.disableCse)]

end LoweringMode

/-- How an engine comes by its int8 scales. -/
inductive CalibrationMode where
  /-- It needs none. -/
  | notRequired
  /-- From a calibrator. -/
  | postTraining
  /-- The graph was trained with them. -/
  | quantizationAware
  deriving DecidableEq, Repr

namespace CalibrationMode

/-- The mode for an engine with or without int8, with or without a calibrator. -/
def derive (int8Enabled hasCalibrator : Bool) : CalibrationMode :=
  match int8Enabled, hasCalibrator with
  | false, _ => notRequired
  | true, true => postTraining
  | true, false => quantizationAware

def lowering : CalibrationMode → LoweringMode
  | quantizationAware => ⟨true, true⟩
  | notRequired => .default
  | postTraining => .default

def name : CalibrationMode → String
  | notRequired => "not_required"
  | postTraining => "post_training"
  | quantizationAware => "quantization_aware"

def toJson (m : CalibrationMode) : Json := .str m.name

end CalibrationMode

end HybridCompile
