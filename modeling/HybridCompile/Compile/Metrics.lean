import HybridCompile.Engine.Artifact

/-!
# HybridCompile — compile metrics

What a compilation took: how much of the graph went to the accelerator, how long the builds of its
engines lasted, and the most memory that one of them needed.
-/

namespace HybridCompile

/-- What one engine took. -/
structure RegionMetrics where
  region : Nat
  operatorCount : Nat
  buildDuration : Duration
  engineBytes : Nat
  peakDeviceBytes : UInt64
  deriving DecidableEq, Repr

def RegionMetrics.toJson (m : RegionMetrics) : Json :=
  .record [
    ("region", .ofNat m.region), ("num_operators", .ofNat m.operatorCount),
    ("build_duration", m.buildDuration.toJson), ("engine_bytes", .ofNat m.engineBytes),
    ("peak_device_bytes", .ofNat m.peakDeviceBytes.toNat)]

/-- What a compilation took. -/
structure Metrics where
  totalDuration : Duration
  partitionDuration : Duration
  /-- The time of all builds together. -/
  totalBuildDuration : Duration
  peakDeviceBytes : UInt64
  regionCount : Nat
  acceleratorRegionCount : Nat
  operatorCount : Nat
  acceleratorOperatorCount : Nat
  /-- The engines, in the order in which they were recorded. -/
  regionBuilds : List RegionMetrics
  deriving DecidableEq, Repr

namespace Metrics

def new (regionCount operatorCount : Nat) : Metrics :=
  { totalDuration := .zero, partitionDuration := .zero, totalBuildDuration := .zero,
    peakDeviceBytes := 0, regionCount, acceleratorRegionCount := 0, operatorCount,
    acceleratorOperatorCount := 0, regionBuilds := [] }

def record (m : Metrics) (operatorCount : Nat) (r : BuildReport) : Metrics :=
  { m with
    totalBuildDuration := m.totalBuildDuration.add r.duration
    peakDeviceBytes := max m.peakDeviceBytes r.peakDeviceBytes
    acceleratorRegionCount := m.acceleratorRegionCount + 1
    acceleratorOperatorCount := m.acceleratorOperatorCount + operatorCount
    regionBuilds :=
      m.regionBuilds ++ [⟨r.region, operatorCount, r.duration, r.engineBytes, r.peakDeviceBytes⟩] }

/-- Record how long the whole took. -/
def finalise (m : Metrics) (partition total : Duration) : Metrics :=
  { m with partitionDuration := partition, totalDuration := total }

/-- The share of the operators that run on the accelerator; zero if there is no operator. -/
def coverage (m : Metrics) : Number.Binary64 :=
  if m.operatorCount = 0 then .ofNat 0
  else (Number.Binary64.ofNat m.acceleratorOperatorCount).div (.ofNat m.operatorCount)

def summary (m : Metrics) : String :=
  let peak := (Number.Binary64.ofNat m.peakDeviceBytes.toNat).div (.ofNat 1048576)
  let share := m.coverage.mul (.ofNat 100)
  s!"Compile: {m.totalDuration.inMillis.toFixed 2}ms total, " ++
    s!"{m.partitionDuration.inMillis.toFixed 2}ms partitioning, {m.regionCount} regions " ++
    s!"({m.acceleratorRegionCount} built, " ++
    s!"{m.totalBuildDuration.inMillis.toFixed 2}ms build time), " ++
    s!"{m.acceleratorOperatorCount}/{m.operatorCount} operators on accelerator " ++
    s!"({share.toFixed 0}%), peak {peak.toFixed 2} MB device memory"

def toJson (m : Metrics) : Json :=
  .record [
    ("total_duration", m.totalDuration.toJson),
    ("partition_duration", m.partitionDuration.toJson),
    ("total_build_duration", m.totalBuildDuration.toJson),
    ("peak_device_bytes", .ofNat m.peakDeviceBytes.toNat),
    ("num_regions", .ofNat m.regionCount),
    ("num_accelerator_regions", .ofNat m.acceleratorRegionCount),
    ("num_operators", .ofNat m.operatorCount),
    ("num_accelerator_operators", .ofNat m.acceleratorOperatorCount),
    ("region_builds", .array (m.regionBuilds.map RegionMetrics.toJson))]

end Metrics

end HybridCompile
