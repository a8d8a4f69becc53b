import HybridCompile.Json.Basic
import HybridCompile.Text.Vocabulary

/-!
# HybridCompile — devices

An engine is built for one device: a primary accelerator, or one of the low-power cores beside it.
Builds that must not overlap are told apart by the device's key.
-/

namespace HybridCompile

/-- The kind of a device. -/
inductive DeviceKind where
  | primary
  | auxiliary
  deriving DecidableEq, Repr, Inhabited

namespace DeviceKind

def label : DeviceKind → String
  | primary => "GPU"
  | auxiliary => "DLA"

def name : DeviceKind → String
  | primary => "primary"
  | auxiliary => "auxiliary_low_power"

/-- The names of kinds of devices. -/
def names : Vocabulary DeviceKind where
  kind := "device type"
  fold := Text.foldName
  spellings := [
    ("gpu", primary), ("primary", primary), ("dla", auxiliary), ("auxiliary", auxiliary),
    ("auxiliary_low_power", auxiliary)]
  distinct := by decide

abbrev parse (text : String) : Except Fault DeviceKind := names.parse text

end DeviceKind

/-- What an engine may be used for. -/
inductive Capability where
  | standard
  | safeGpu
  | safeDla
  deriving DecidableEq, Repr, Inhabited

namespace Capability

def label : Capability → String
  | standard => "Default"
  | safeGpu => "Safe GPU"
  | safeDla => "Safe DLA"

def name : Capability → String
  | standard => "default"
  | safeGpu => "safe_gpu"
  | safeDla => "safe_dla"

/-- A folded name with its words joined by underscores, however they were joined. -/
def joinWords (s : String) : String :=
  String.ofList (s.toList.map fun c => if c == '-' || c == ' ' then '_' else c)

/-- The names of capabilities. -/
def names : Vocabulary Capability where
  kind := "engine capability"
  fold text := joinWords (Text.foldName text)
  spellings := [
    ("default", standard), ("standard", standard), ("safe_gpu", safeGpu), ("safety", safeGpu),
    ("safe_dla", safeDla), ("dla_standalone", safeDla)]
  distinct := by decide

abbrev parse (text : String) : Except Fault Capability := names.parse text

end Capability

/-- What tells devices apart: the accelerator, and the core beside it if that is meant. -/
structure DeviceKey where
  gpuId : UInt32
  auxCore? : Option UInt32
  deriving DecidableEq, Repr

namespace DeviceKey

def text (key : DeviceKey) : String :=
  match key.auxCore? with
  | some core => s!"gpu{key.gpuId}/dla{core}"
  | none => s!"gpu{key.gpuId}"

/-- Keys are ordered by accelerator; the accelerator itself stands before its cores. -/
def le (a b : DeviceKey) : Bool :=
  if a.gpuId ≠ b.gpuId then a.gpuId < b.gpuId
  else match a.auxCore?, b.auxCore? with
    | none, _ => true
    | some _, none => false
    | some x, some y => x ≤ y

end DeviceKey

/-- The device that an engine is built for. -/
@[ext] structure Device where
  kind : DeviceKind
  primaryId : UInt32
  /-- The core of an auxiliary device; kept for a primary one, where it means nothing. -/
  auxCoreId : UInt32
  /-- Whether layers that a core cannot run may go to the accelerator. -/
  allowFallback : Bool
  deriving DecidableEq, Repr

namespace Device

def default : Device := ⟨.primary, 0, 0, false⟩

instance : Inhabited Device := ⟨default⟩

def idOf (field : String) (value : Int64) : Except Fault UInt32 :=
  wordOf field s!"{value} does not fit a device id" value

/-- A device with the given numbers. -/
def make (kind : DeviceKind) (gpuId core : Int64) (allowFallback : Bool) : Except Fault Device := do
  return ⟨kind, ← idOf "device.gpu_id" gpuId, ← idOf "device.dla_core" core, allowFallback⟩

def primary (gpuId : Int64) : Except Fault Device := make .primary gpuId 0 false

def auxiliary (gpuId core : Int64) (allowFallback : Bool) : Except Fault Device :=
  make .auxiliary gpuId core allowFallback

/-- The core, where it means something. -/
def auxCore? (d : Device) : Option UInt32 :=
  match d.kind with
  | .auxiliary => some d.auxCoreId
  | .primary => none

def key (d : Device) : DeviceKey := ⟨d.primaryId, d.auxCore?⟩

def toJson (d : Device) : Json :=
  .record [
    ("kind", .str d.kind.name), ("primary_id", .ofNat d.primaryId.toNat),
    ("aux_core_id", .ofNat d.auxCoreId.toNat),
    ("allow_fallback_to_general_device", .bool d.allowFallback)]

end Device

end HybridCompile
