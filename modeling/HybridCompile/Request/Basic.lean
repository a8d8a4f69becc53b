import HybridCompile.Files.Fault
import HybridCompile.Settings.Basic

/-!
# HybridCompile — compile requests

A request is what a person writes to ask for a compilation: names where settings have values, and
any numbers at all. Everything in it may be left out. `Request.toSettings` finds the settings that
it describes, or the first fault.
-/

namespace HybridCompile

/-- One input of a request: a shape or the three shapes of a range, and two names. -/
structure InputEntry where
  shape : Option Dims
  minShape : Option Dims
  optShape : Option Dims
  maxShape : Option Dims
  dtype : String
  format : String
  deriving DecidableEq, Repr

/-- The device of a request. -/
structure DeviceEntry where
  deviceType : String
  gpuId : Int64
  dlaCore : Int64
  allowGpuFallback : Bool
  deriving DecidableEq, Repr

/-- The fallback policy of a request. -/
structure FallbackEntry where
  enabled : Bool
  minBlockSize : Int64
  operators : List String
  modules : List String
  deriving DecidableEq, Repr

/-- A compile request. -/
structure Request where
  precisions : List String
  workspaceSize : Int64
  minTimingIters : Int64
  avgTimingIters : Int64
  maxBatchSize : Int64
  capability : String
  flags : Flags
  inputs : List InputEntry
  device : DeviceEntry
  fallback : FallbackEntry
  deriving DecidableEq, Repr

/-- Why a request gives no settings. -/
inductive RequestError where
  | unreadable (path : String) (fault : FileFault)
  | malformed
  | invalid (fault : Fault)
  deriving DecidableEq, Repr

def RequestError.message : RequestError → String
  | unreadable path fault => s!"cannot read request '{path}': {fault.message}"
  | malformed => "TOML parse error: not a compile request"
  | invalid fault => s!"invalid request: {fault.message}"

/-- What is read from something that may be left out. -/
def readOr {α β : Type} (default : α) (read : β → Option α) : Option β → Option α
  | none => some default
  | some v => read v

namespace InputEntry

/-- An input of which nothing is said. -/
def default : InputEntry := ⟨none, none, none, none, "float", "contiguous"⟩

/-- The description of the input: of one shape, or of a range if all three shapes are given. -/
def toSpec (e : InputEntry) : Except Fault TensorSpec := do
  let dtype ← ElementType.parse e.dtype
  let layout ← Layout.parse e.format
  match e.shape, e.minShape, e.optShape, e.maxShape with
  | some shape, none, none, none => TensorSpec.fixed shape dtype layout
  | none, some min, some opt, some max => TensorSpec.dynamic min opt max dtype layout
  | _, _, _, _ =>
    throw (.incompatible "shape"
      "give either `shape` or all of `min_shape`, `opt_shape`, `max_shape`")

end InputEntry

namespace DeviceEntry

/-- The device when nothing is said. -/
def default : DeviceEntry := ⟨"gpu", 0, 0, false⟩

def toDevice (e : DeviceEntry) : Except Fault Device := do
  Device.make (← DeviceKind.parse e.deviceType) e.gpuId e.dlaCore e.allowGpuFallback

end DeviceEntry

namespace FallbackEntry

/-- The policy when nothing is said. -/
def default : FallbackEntry := ⟨false, 1, [], []⟩

def toPolicy (e : FallbackEntry) : Except Fault FallbackPolicy :=
  FallbackPolicy.make e.enabled e.minBlockSize e.operators e.modules

end FallbackEntry

namespace Request

/-- The request in which nothing is said. -/
def default : Request :=
  { precisions := ["float"], workspaceSize := 0, minTimingIters := 2, avgTimingIters := 1,
    maxBatchSize := 0, capability := "default", flags := .off, inputs := [],
    device := .default, fallback := .default }

instance : Inhabited Request := ⟨default⟩

/-- The descriptions of inputs, the first of which has number `i`. A fault is found inside its
input. -/
def specsFrom (i : Nat) : List InputEntry → Except Fault (List TensorSpec)
  | [] => .ok []
  | e :: rest => do
    let spec ← e.toSpec.mapError (Fault.within s!"inputs[{i}]")
    return spec :: (← specsFrom (i + 1) rest)

/-- The draft that a request describes. -/
def toDraft (r : Request) : Except Fault Draft := do
  let inputs ← specsFrom 0 r.inputs
  let precisions ← r.precisions.mapM ElementType.parse
  let device ← r.device.toDevice
  let fallback ← r.fallback.toPolicy
  let capability ← Capability.parse r.capability
  return {
    inputs, precisions := some precisions, device, fallback, capability
    workspaceSize := r.workspaceSize
    minTimingIters := r.minTimingIters
    avgTimingIters := r.avgTimingIters
    maxBatchSize := r.maxBatchSize
    flags := r.flags
    calibrator := none }

/-- The settings that a request describes, or the first fault. -/
def toSettings (r : Request) : Except RequestError Settings :=
  (r.toDraft.bind Draft.build).mapError RequestError.invalid

end Request

end HybridCompile
