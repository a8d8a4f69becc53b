import HybridCompile.Settings.Basic

/-!
# HybridCompile — settings as text

Settings are shown as an outline: a line for each value, with blocks and lists set in by four
blanks. The outline depends on nothing but the settings, so it can be compared line by line.
-/

namespace HybridCompile.Settings

def indent : String := "    "

/-- The word for a truth value. -/
def truthWord (b : Bool) : String := if b then "True" else "False"

/-- A line with one value. -/
def valueLine (key value : String) : String := s!"\"{key}\": {value}"

def indented (lines : List String) : List String := lines.map (indent ++ ·)

/-- A list, with an item on each line. -/
def listLines (key : String) (items : List String) : List String :=
  s!"\"{key}\": [" :: indented (items.map (· ++ ",")) ++ ["]"]

/-- A block of lines under a name. -/
def blockLines (key : String) (lines : List String) : List String :=
  s!"\"{key}\": \x7b" :: indented lines ++ ["\x7d"]

/-- The lines of the outline within its braces. -/
def outlineLines (s : Settings) : List String :=
  listLines "Inputs" (s.inputs.map TensorSpec.text)
    ++ listLines "Enabled Precision" (s.precisions.map ElementType.label)
    ++ [valueLine "TF32 Disabled" (truthWord s.flags.disableTf32),
        valueLine "Sparsity" (truthWord s.flags.sparseWeights),
        valueLine "Refit" (truthWord s.flags.refit),
        valueLine "Debug" (truthWord s.flags.debug),
        valueLine "Strict Types" (truthWord s.flags.strictTypes)]
    ++ blockLines "Device" [
        valueLine "device_type" s.device.kind.label,
        valueLine "allow_gpu_fallback" (truthWord s.device.allowFallback),
        valueLine "gpu_id" (toString s.device.primaryId),
        valueLine "dla_core" (toString s.device.auxCoreId)]
    ++ [valueLine "Engine Capability" s.capability.label,
        valueLine "Num Min Timing Iters" (toString s.minTimingIters),
        valueLine "Num Avg Timing Iters" (toString s.avgTimingIters),
        valueLine "Workspace Size" (toString s.workspaceSize),
        valueLine "Max Batch Size" (toString s.maxBatchSize),
        valueLine "Truncate long and double" (truthWord s.flags.truncateLongAndDouble),
        valueLine "Calibrator" ((s.calibrator.map Calibrator.name).getD "None")]
    ++ blockLines "Lowering" [
        valueLine "unfreeze_module" (truthWord s.lowering.unfreezeModule),
        valueLine "disable_cse" (truthWord s.lowering.disableCse)]
    ++ blockLines "Fallback" (
        [valueLine "enabled" (truthWord s.fallback.enabled),
         valueLine "min_block_size" (toString s.fallback.minRegionSize)]
        ++ listLines "forced_fallback_operators" s.fallback.excludedOperators.toList
        ++ listLines "forced_fallback_modules" s.fallback.excludedModules.toList)

def describe (s : Settings) : String :=
  String.join (("Compile Settings: \x7b" :: indented s.outlineLines ++ ["\x7d"]).map (· ++ "\n"))

end HybridCompile.Settings
