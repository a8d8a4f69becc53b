import HybridCompile.Json.Basic
import HybridCompile.Request.Basic
import HybridCompile.Toml.Parser
import HybridCompile.Toml.Printer

/-!
# HybridCompile — written requests

A request is kept as a TOML text, and shown as JSON. In both, whatever is left out has its default,
and a shape that was not given is left out rather than written as empty.

* `FieldReader` — what a format gives to read fields with; both formats give one.
* `Request.parse`, `Request.toToml` — the TOML text.
* `Request.ofJson?`, `Request.toJson` — the JSON value.
-/

namespace HybridCompile

/-- How the values of a format are read. -/
structure FieldReader (β : Type) where
  /-- The values of named fields, each `none` where it is left out. -/
  record? : List String → β → Option (List (Option β))
  items? : β → Option (List β)
  text? : β → Option String
  integer? : β → Option Int64
  boolean? : β → Option Bool
  /-- Whether a value says that there is none. -/
  isNothing : β → Bool

/-- Reading TOML, which has no value for nothing. -/
def Toml.reader : FieldReader Toml.Value where
  record? := Toml.Value.record?
  items? := Toml.Value.items?
  text? := Toml.Value.text?
  integer? := Toml.Value.integer?
  boolean? := Toml.Value.boolean?
  isNothing := fun _ => false

/-- A whole number of 64 bits with a sign. -/
def Json.int64? (v : Json) : Option Int64 := do
  let n ← v.int?
  if Int64.minValue.toInt ≤ n && n ≤ Int64.maxValue.toInt then some (Int64.ofInt n) else none

/-- Reading JSON. -/
def Json.reader : FieldReader Json where
  record? := Json.record?
  items? := Json.items?
  text? := Json.text?
  integer? := Json.int64?
  boolean? := Json.bool?
  isNothing := fun
    | .null => true
    | _ => false

namespace FieldReader

variable {β : Type} (r : FieldReader β)

def texts? (v : β) : Option (List String) := do (← r.items? v).mapM r.text?

def dims? (v : β) : Option Dims := do (← r.items? v).mapM r.integer?

/-- Dimensions that may be given as nothing. -/
def givenDims? (v : β) : Option (Option Dims) :=
  if r.isNothing v then some none else (r.dims? v).map some

end FieldReader

namespace InputEntry

def fields : List String := ["shape", "min_shape", "opt_shape", "max_shape", "dtype", "format"]

def read? {β : Type} (r : FieldReader β) (v : β) : Option InputEntry := do
  match ← r.record? fields v with
  | [shape, min, opt, max, dtype, format] => do
    return {
      shape := ← readOr none r.givenDims? shape
      minShape := ← readOr none r.givenDims? min
      optShape := ← readOr none r.givenDims? opt
      maxShape := ← readOr none r.givenDims? max
      dtype := ← readOr default.dtype r.text? dtype
      format := ← readOr default.format r.text? format }
  | _ => none

/-- The shapes that were given, by name. -/
def shapes (e : InputEntry) : List (String × Dims) :=
  let given (name : String) (dims : Option Dims) : List (String × Dims) :=
    match dims with
    | some dims => [(name, dims)]
    | none => []
  given "shape" e.shape ++ given "min_shape" e.minShape ++ given "opt_shape" e.optShape
    ++ given "max_shape" e.maxShape

def toToml (e : InputEntry) : Toml.Table :=
  e.shapes.map (fun s => (s.1, .array (s.2.map .integer)))
    ++ [("dtype", .text e.dtype), ("format", .text e.format)]

def toJson (e : InputEntry) : Json :=
  .record (e.shapes.map (fun s => (s.1, dimsJson s.2))
    ++ [("dtype", .str e.dtype), ("format", .str e.format)])

end InputEntry

namespace DeviceEntry

def fields : List String := ["device_type", "gpu_id", "dla_core", "allow_gpu_fallback"]

def read? {β : Type} (r : FieldReader β) (v : β) : Option DeviceEntry := do
  match ← r.record? fields v with
  | [deviceType, gpuId, dlaCore, allowGpuFallback] => do
    return {
      deviceType := ← readOr default.deviceType r.text? deviceType
      gpuId := ← readOr default.gpuId r.integer? gpuId
      dlaCore := ← readOr default.dlaCore r.integer? dlaCore
      allowGpuFallback := ← readOr default.allowGpuFallback r.boolean? allowGpuFallback }
  | _ => none

def toToml (e : DeviceEntry) : Toml.Table :=
  [("device_type", .text e.deviceType), ("gpu_id", .integer e.gpuId),
   ("dla_core", .integer e.dlaCore), ("allow_gpu_fallback", .boolean e.allowGpuFallback)]

def toJson (e : DeviceEntry) : Json :=
  .record [("device_type", .str e.deviceType), ("gpu_id", .ofInt e.gpuId.toInt),
    ("dla_core", .ofInt e.dlaCore.toInt), ("allow_gpu_fallback", .bool e.allowGpuFallback)]

end DeviceEntry

namespace FallbackEntry

def fields : List String :=
  ["enabled", "min_block_size", "forced_fallback_operators", "forced_fallback_modules"]

def read? {β : Type} (r : FieldReader β) (v : β) : Option FallbackEntry := do
  match ← r.record? fields v with
  | [enabled, minBlockSize, operators, modules] => do
    return {
      enabled := ← readOr default.enabled r.boolean? enabled
      minBlockSize := ← readOr default.minBlockSize r.integer? minBlockSize
      operators := ← readOr default.operators r.texts? operators
      modules := ← readOr default.modules r.texts? modules }
  | _ => none

def toToml (e : FallbackEntry) : Toml.Table :=
  [("enabled", .boolean e.enabled), ("min_block_size", .integer e.minBlockSize),
   ("forced_fallback_operators", .array (e.operators.map .text)),
   ("forced_fallback_modules", .array (e.modules.map .text))]

def toJson (e : FallbackEntry) : Json :=
  .record [("enabled", .bool e.enabled), ("min_block_size", .ofInt e.minBlockSize.toInt),
    ("forced_fallback_operators", .texts e.operators),
    ("forced_fallback_modules", .texts e.modules)]

end FallbackEntry

namespace Request

def fields : List String :=
  ["enabled_precisions", "workspace_size", "num_min_timing_iters", "num_avg_timing_iters",
   "max_batch_size", "capability", "sparse_weights", "disable_tf32", "refit", "debug",
   "strict_types", "truncate_long_and_double", "inputs", "device", "fallback"]

def read? {β : Type} (r : FieldReader β) (v : β) : Option Request := do
  match ← r.record? fields v with
  | [precisions, workspaceSize, minTimingIters, avgTimingIters, maxBatchSize, capability,
      sparseWeights, disableTf32, refit, debug, strictTypes, truncateLongAndDouble,
      inputs, device, fallback] => do
    return {
      precisions := ← readOr default.precisions r.texts? precisions
      workspaceSize := ← readOr default.workspaceSize r.integer? workspaceSize
      minTimingIters := ← readOr default.minTimingIters r.integer? minTimingIters
      avgTimingIters := ← readOr default.avgTimingIters r.integer? avgTimingIters
      maxBatchSize := ← readOr default.maxBatchSize r.integer? maxBatchSize
      capability := ← readOr default.capability r.text? capability
      flags := {
        sparseWeights := ← readOr false r.boolean? sparseWeights
        disableTf32 := ← readOr false r.boolean? disableTf32
        refit := ← readOr false r.boolean? refit
        debug := ← readOr false r.boolean? debug
        strictTypes := ← readOr false r.boolean? strictTypes
        truncateLongAndDouble := ← readOr false r.boolean? truncateLongAndDouble }
      inputs := ← readOr [] (fun v => (r.items? v).bind (·.mapM (InputEntry.read? r))) inputs
      device := ← readOr .default (DeviceEntry.read? r) device
      fallback := ← readOr .default (FallbackEntry.read? r) fallback }
  | _ => none

def parse (text : String) : Except RequestError Request :=
  match (Toml.parse? text).bind fun table => read? Toml.reader (.table table) with
  | some r => .ok r
  | none => .error .malformed

def ofJson? (v : Json) : Option Request := read? Json.reader v

/-- The entries before the first section of the written request. -/
def rootEntries (r : Request) : Toml.Table :=
  [("enabled_precisions", .array (r.precisions.map .text)),
   ("workspace_size", .integer r.workspaceSize),
   ("num_min_timing_iters", .integer r.minTimingIters),
   ("num_avg_timing_iters", .integer r.avgTimingIters),
   ("max_batch_size", .integer r.maxBatchSize),
   ("capability", .text r.capability),
   ("sparse_weights", .boolean r.flags.sparseWeights),
   ("disable_tf32", .boolean r.flags.disableTf32),
   ("refit", .boolean r.flags.refit),
   ("debug", .boolean r.flags.debug),
   ("strict_types", .boolean r.flags.strictTypes),
   ("truncate_long_and_double", .boolean r.flags.truncateLongAndDouble)]

/-- The request laid out as a document: each input is an element of `inputs`, and where there is
none the empty array stands with the other entries. -/
def toDocument (r : Request) : Toml.Document where
  entries := r.rootEntries ++ if r.inputs.isEmpty then [("inputs", .array [])] else []
  sections :=
    r.inputs.map (fun e => ⟨.element "inputs", e.toToml⟩)
      ++ [⟨.table "device", r.device.toToml⟩, ⟨.table "fallback", r.fallback.toToml⟩]

def toToml (r : Request) : String := r.toDocument.render

def toJson (r : Request) : Json :=
  .record [
    ("enabled_precisions", .texts r.precisions),
    ("workspace_size", .ofInt r.workspaceSize.toInt),
    ("num_min_timing_iters", .ofInt r.minTimingIters.toInt),
    ("num_avg_timing_iters", .ofInt r.avgTimingIters.toInt),
    ("max_batch_size", .ofInt r.maxBatchSize.toInt),
    ("capability", .str r.capability),
    ("sparse_weights", .bool r.flags.sparseWeights),
    ("disable_tf32", .bool r.flags.disableTf32),
    ("refit", .bool r.flags.refit),
    ("debug", .bool r.flags.debug),
    ("strict_types", .bool r.flags.strictTypes),
    ("truncate_long_and_double", .bool r.flags.truncateLongAndDouble),
    ("inputs", .array (r.inputs.map InputEntry.toJson)),
    ("device", r.device.toJson),
    ("fallback", r.fallback.toJson)]

end Request

end HybridCompile
