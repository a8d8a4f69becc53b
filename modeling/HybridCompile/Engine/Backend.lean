import HybridCompile.Engine.Network
import HybridCompile.Engine.Options
import HybridCompile.Engine.Work
import HybridCompile.Json.Printer

/-!
# HybridCompile — backends

A backend builds the engine of a network. The reference backend builds an image of the network and
its options, layer by layer, with optional workspace and delay for each layer; a scripted backend
does what it is told, whatever the network.

* `Backend` — a name, whether builds may overlap, and the work for a network.
* `ReferenceBackend`, `engineImage`, `calibrationText` — the reference backend.
* `ScriptStep`, `scripted` — the scripted one.
-/

namespace HybridCompile

/-- A builder of engines. -/
structure Backend where
  name : String
  /-- Whether two builds may run at one time. -/
  threadSafe : Bool
  work : Network → EngineOptions → Work

/-! ## The reference backend -/

/-- What the reference backend does for each layer. -/
structure ReferenceBackend where
  /-- The operator kinds that it cannot build. -/
  rejected : NameSet
  threadSafe : Bool
  /-- The bytes that each layer keeps reserved. -/
  layerWorkspace : UInt64
  /-- The milliseconds that each layer takes. -/
  layerDelay : Nat
  deriving DecidableEq, Repr

/-- The largest size among samples; what is not a number does not count. -/
def largestSize (batches : List (List Number.Sample)) : Number.Magnitude :=
  (batches.flatten.filterMap Number.Sample.size?).foldl Number.Magnitude.max (.finite 0)

/-- What calibrating with some batches finds. -/
def calibrationText (batches : List (List Number.Sample)) : String :=
  s!"batches={batches.length};abs_max={(largestSize batches).text}"

/-- The image of an engine. -/
def engineImage (n : Network) (o : EngineOptions) (calibration : Option String) : Json :=
  .record [
    ("format", .str "reference-engine/1"), ("backend", .str "reference"), ("network", n.toJson),
    ("settings", o.toJson), ("calibration_cache", .orNull .str calibration)]

namespace ReferenceBackend

def default : ReferenceBackend := ⟨.empty, true, 0, 0⟩

instance : Inhabited ReferenceBackend := ⟨default⟩

/-- Go on after a checkpoint, unless the build has to stop. -/
def afterCheckpoint (next : Work) : Work :=
  .checkpoint fun
    | some cause => .fail (.interrupted cause)
    | none => next

/-- Go on once memory is granted, and give up if it is refused. -/
def onceGranted (next : Work) : Option MemoryError → Work
  | some e => .fail (.outOfMemory e)
  | none => next

/-- Go on with the workspace of a layer reserved. -/
def withWorkspace (b : ReferenceBackend) (layer : Layer) (next : Work) : Work :=
  if b.layerWorkspace = 0 then next
  else .reserve b.layerWorkspace s!"{layer.name}:workspace" true (onceGranted next)

/-- Build layers one after another, and go on. -/
def layersWork (b : ReferenceBackend) (next : Work) : List Layer → Work
  | [] => next
  | layer :: rest =>
    afterCheckpoint <|
      if b.rejected.contains layer.kind then
        .fail (.layerRejected layer.name s!"no converter for '{layer.kind}'")
      else b.withWorkspace layer (.pause b.layerDelay (b.layersWork next rest))

/-- Find the calibration of an engine, and go on with it. What is in the cache is used; else the
data are looked at, and what is found is put into the cache. -/
def calibrationWork (o : EngineOptions) (next : Option String → Work) : Work :=
  if o.int8Enabled && o.calibratorName.isSome then
    .readCache fun
      | some content => next (some (Utf8.decodeLossy content))
      | none => .drainBatches fun batches =>
          let text := calibrationText batches
          .writeCache (Utf8.encode text) (next (some text))
  else next none

/-- The work for a network: its layers, a last checkpoint, the calibration, the image. -/
def work (b : ReferenceBackend) (n : Network) (o : EngineOptions) : Work :=
  b.layersWork
    (afterCheckpoint (calibrationWork o fun calibration =>
      .done (Utf8.encode (engineImage n o calibration).compact)))
    n.layers

def toBackend (b : ReferenceBackend) : Backend := ⟨"reference", b.threadSafe, b.work⟩

end ReferenceBackend

/-! ## The scripted backend -/

/-- One thing that a scripted backend does. -/
inductive ScriptAction where
  | checkpoint
  | reserve (size : UInt64) (label : String) (keep : Bool)
  | fire
  | reject (layer reason : String)
  | fail (reason : String)
  | crash
  | emit (text : String)
  deriving DecidableEq, Repr

/-- A step of a script; it may be meant for one region only. -/
structure ScriptStep where
  region? : Option Nat
  action : ScriptAction
  deriving DecidableEq, Repr

/-- Note what the context shows, then stop if there is an error. -/
def observeThen (error? : Option BackendError) (next : Work) : Work :=
  .observe <|
    match error? with
    | some e => .fail e
    | none => next

/-- The work of one action. The context is noted after each. -/
def ScriptAction.work (next : Work) : ScriptAction → Work
  | .checkpoint => .checkpoint fun cause? => observeThen (cause?.map .interrupted) next
  | .reserve size label keep =>
    .reserve size label keep fun e? => observeThen (e?.map .outOfMemory) next
  | .fire => .fire (observeThen none next)
  | .reject layer reason => observeThen (some (.layerRejected layer reason)) next
  | .fail reason => observeThen (some (.internal reason)) next
  | .crash => .crash
  | .emit text => .observe (.done (Utf8.encode text))

/-- The work of a script for a network. A script that ends without an engine gives the network's
name. -/
def scriptWork (n : Network) : List ScriptStep → Work
  | [] => .done (Utf8.encode n.name)
  | step :: rest =>
    if step.region?.all (· == n.region) then step.action.work (scriptWork n rest)
    else scriptWork n rest

/-- A backend that follows a script. -/
def scripted (script : List ScriptStep) : Backend :=
  ⟨"scripted", true, fun n _ => scriptWork n script⟩

end HybridCompile
