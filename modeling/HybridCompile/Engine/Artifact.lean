import HybridCompile.Engine.Network
import HybridCompile.Number.Duration
import HybridCompile.Text.Utf8

/-!
# HybridCompile — artifacts

What comes out of a region: an engine with a report on its build, or, for the general executor, the
list of the operators to interpret.
-/

namespace HybridCompile

/-- A report on the build of an engine. -/
structure BuildReport where
  region : Nat
  backend : String
  network : String
  duration : Duration
  /-- The size of the engine. -/
  engineBytes : Nat
  peakDeviceBytes : UInt64
  /-- How many reservations the build made. -/
  reservations : UInt64
  inputs : List NetworkInput
  deriving DecidableEq, Repr

def BuildReport.toJson (r : BuildReport) : Json :=
  .record [
    ("region", .ofNat r.region), ("backend", .str r.backend), ("network", .str r.network),
    ("duration", r.duration.toJson), ("engine_bytes", .ofNat r.engineBytes),
    ("peak_device_bytes", .ofNat r.peakDeviceBytes.toNat),
    ("reservations", .ofNat r.reservations.toNat),
    ("inputs", .array (r.inputs.map NetworkInput.toJson))]

/-- What a region is compiled to. -/
inductive Artifact where
  | engine (bytes : Bytes) (report : BuildReport)
  | interpreted (region : Nat) (operators : List Nat) (operatorNames : List String)
  deriving DecidableEq, Repr

namespace Artifact

def ofGeneral (r : Region) : Artifact := .interpreted r.index r.operators r.operatorNames

def engine? : Artifact → Option (Bytes × BuildReport)
  | engine bytes report => some (bytes, report)
  | interpreted .. => none

def isEngine (a : Artifact) : Bool := a.engine?.isSome

def toJson : Artifact → Json
  | engine _ report => .record [("kind", .str "engine"), ("report", report.toJson)]
  | interpreted region operators names =>
    .record [("kind", .str "interpreted"), ("region", .ofNat region),
      ("operators", .array (operators.map .ofNat)), ("operator_names", .texts names)]

end Artifact

end HybridCompile
