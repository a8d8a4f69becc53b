import HybridCompile.Calibration.Calibrator
import HybridCompile.Calibration.Mode
import HybridCompile.Device
import HybridCompile.Fallback
import HybridCompile.Tensor.Spec

/-!
# HybridCompile — settings

The settings of a compilation are what every later stage goes by: the inputs, the precisions, the
device, the fallback policy, and the knobs and flags of the engine. They are made from a draft,
whose knobs are any numbers, by `Draft.build`, which finds the first thing that is wrong. How graphs
are lowered follows from the precisions and the calibrator; it is found once, by `Draft.build`, and
kept with them.

* `Draft`, `Settings` — before and after.
* `Draft.build`, `Settings.toDraft` — from the one to the other and back.
* `Settings.withCalibrator` — the same settings, calibrated.
-/

namespace HybridCompile

/-- A switch of an engine. -/
inductive Flag where
  | sparseWeights
  | disableTf32
  | refit
  | debug
  | strictTypes
  | truncateLongAndDouble
  deriving DecidableEq, Repr

/-- The switches of an engine, each on or off. -/
@[ext] structure Flags where
  sparseWeights : Bool
  disableTf32 : Bool
  refit : Bool
  debug : Bool
  strictTypes : Bool
  truncateLongAndDouble : Bool
  deriving DecidableEq, Repr

namespace Flags

/-- Every switch off. -/
def off : Flags := ⟨false, false, false, false, false, false⟩

/-- Turn a switch on or off. -/
def set (flag : Flag) (on : Bool) (f : Flags) : Flags :=
  match flag with
  | .sparseWeights => { f with sparseWeights := on }
  | .disableTf32 => { f with disableTf32 := on }
  | .refit => { f with refit := on }
  | .debug => { f with debug := on }
  | .strictTypes => { f with strictTypes := on }
  | .truncateLongAndDouble => { f with truncateLongAndDouble := on }

end Flags

/-- A number that an engine is built with. -/
inductive Knob where
  | workspaceSize
  | minTimingIters
  | avgTimingIters
  | maxBatchSize
  deriving DecidableEq, Repr

/-- The field of a request that a knob is given in. -/
def Knob.field : Knob → String
  | workspaceSize => "workspace_size"
  | minTimingIters => "num_min_timing_iters"
  | avgTimingIters => "num_avg_timing_iters"
  | maxBatchSize => "max_batch_size"

/-- Settings that are still being put together. -/
structure Draft where
  inputs : List TensorSpec
  /-- The precisions, if any were set. -/
  precisions : Option (List ElementType)
  device : Device
  fallback : FallbackPolicy
  capability : Capability
  workspaceSize : Int64
  minTimingIters : Int64
  avgTimingIters : Int64
  maxBatchSize : Int64
  flags : Flags
  calibrator : Option Calibrator
  deriving DecidableEq, Repr

/-- The settings of a compilation. -/
@[ext] structure Settings where
  inputs : List TensorSpec
  /-- The precisions in which an engine may compute, each once and in their order. -/
  precisions : List ElementType
  device : Device
  fallback : FallbackPolicy
  capability : Capability
  /-- The bytes that an engine may use as a scratch area. -/
  workspaceSize : UInt64
  minTimingIters : UInt32
  avgTimingIters : UInt32
  maxBatchSize : UInt32
  flags : Flags
  calibrator : Option Calibrator
  /-- How an engine comes by its int8 scales, as it was found when the settings were made. -/
  calibrationMode : CalibrationMode
  /-- How graphs are lowered; every later stage goes by this and by nothing that it follows from. -/
  lowering : LoweringMode
  deriving DecidableEq, Repr

namespace Draft

/-- The draft that nothing was set in. -/
def default : Draft :=
  { inputs := [], precisions := none, device := .default, fallback := .disabled,
    capability := .standard, workspaceSize := 0, minTimingIters := 2, avgTimingIters := 1,
    maxBatchSize := 0, flags := .off, calibrator := none }

instance : Inhabited Draft := ⟨default⟩

def addInput (d : Draft) (spec : TensorSpec) : Draft := { d with inputs := d.inputs ++ [spec] }

def addPrecision (d : Draft) (t : ElementType) : Draft :=
  { d with precisions := some (t :: d.precisions.getD []) }

def setKnob (knob : Knob) (value : Int64) (d : Draft) : Draft :=
  match knob with
  | .workspaceSize => { d with workspaceSize := value }
  | .minTimingIters => { d with minTimingIters := value }
  | .avgTimingIters => { d with avgTimingIters := value }
  | .maxBatchSize => { d with maxBatchSize := value }

/-- A list of precisions as a set: each once, in their order. -/
def inOrder (precisions : List ElementType) : List ElementType :=
  ElementType.all.filter precisions.contains

/-- The precisions that count: those that were set, else 32-bit floating point. -/
def effectivePrecisions (d : Draft) : List ElementType :=
  match d.precisions with
  | some precisions => inOrder precisions
  | none => [.float]

/-- A size in bytes, given as the field `field`. -/
def sizeOf (field : String) (value : Int64) : Except Fault UInt64 :=
  if value < 0 then .error (.negative field value) else .ok value.toUInt64

def countOf (field : String) (value : Int64) : Except Fault UInt32 :=
  wordOf field s!"{value} exceeds 4294967295" value

/-- Only a low-power core can be built for in the way that is safe for it. -/
def checkCapability (capability : Capability) (device : Device) : Except Fault Unit :=
  if capability = .safeDla ∧ device.kind ≠ .auxiliary then
    .error (.incompatible "capability"
      s!"{capability.label} requires a DLA device, got {device.kind.label}")
  else .ok ()

/-- The settings of the draft, or the first thing that is wrong with it. -/
def build (d : Draft) : Except Fault Settings := do
  if d.inputs.isEmpty then throw (.empty "inputs")
  if d.effectivePrecisions.isEmpty then throw (.empty "enabled_precisions")
  let workspaceSize ← sizeOf Knob.workspaceSize.field d.workspaceSize
  let minTimingIters ← countOf Knob.minTimingIters.field d.minTimingIters
  let avgTimingIters ← countOf Knob.avgTimingIters.field d.avgTimingIters
  let maxBatchSize ← countOf Knob.maxBatchSize.field d.maxBatchSize
  -- What two fields have to do with each other comes after what each says alone.
  checkCapability d.capability d.device
  let mode := CalibrationMode.derive (d.effectivePrecisions.contains .int8) d.calibrator.isSome
  return {
    inputs := d.inputs
    precisions := d.effectivePrecisions
    device := d.device
    fallback := d.fallback
    capability := d.capability
    workspaceSize, minTimingIters, avgTimingIters, maxBatchSize
    flags := d.flags
    calibrator := d.calibrator
    calibrationMode := mode
    lowering := mode.lowering }

end Draft

namespace Settings

/-- A draft of the same settings. -/
def toDraft (s : Settings) : Draft :=
  { inputs := s.inputs
    precisions := some s.precisions
    device := s.device
    fallback := s.fallback
    capability := s.capability
    workspaceSize := s.workspaceSize.toInt64
    minTimingIters := Int64.ofNat s.minTimingIters.toNat
    avgTimingIters := Int64.ofNat s.avgTimingIters.toNat
    maxBatchSize := Int64.ofNat s.maxBatchSize.toNat
    flags := s.flags
    calibrator := s.calibrator }

def int8Enabled (s : Settings) : Bool := s.precisions.contains .int8

/-- What is worth a warning in settings that are fine: a calibrator that nothing uses. -/
def warnings (s : Settings) : List String :=
  match s.calibrator with
  | some c =>
    if s.int8Enabled then []
    else [s!"calibrator '{c.name}' supplied without int8 precision; it will be ignored"]
  | none => []

/-- The settings with a calibrator, whether they had one or not: a draft of them that is given the
calibrator and built again. -/
def withCalibrator (s : Settings) (c : Calibrator) : Except Fault Settings :=
  { s.toDraft with calibrator := some c }.build

end Settings

end HybridCompile
