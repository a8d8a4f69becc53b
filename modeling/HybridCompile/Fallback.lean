import HybridCompile.Fault
import HybridCompile.Json.Basic
import HybridCompile.Text.Blank
import HybridCompile.Text.NameSet

/-!
# HybridCompile — fallback

Where a policy allows it, operators may fall back to the general executor instead of running on the
accelerator. The policy also names operators and modules that always fall back, and how short a
stretch of accelerator work may be before it is not worth an engine.
-/

namespace HybridCompile

/-- What may fall back, and what has to. -/
@[ext] structure FallbackPolicy where
  enabled : Bool
  /-- The fewest operators that make an engine worth building. -/
  minRegionSize : Nat
  /-- The kinds of operator that always fall back. -/
  excludedOperators : NameSet
  /-- The modules in which every operator falls back. -/
  excludedModules : NameSet
  deriving DecidableEq, Repr

namespace FallbackPolicy

/-- Nothing falls back. -/
def disabled : FallbackPolicy := ⟨false, 1, .empty, .empty⟩

instance : Inhabited FallbackPolicy := ⟨disabled⟩

/-- A policy, unless the size is below one or an entry is blank. -/
def make (enabled : Bool) (minRegionSize : Int64) (operators modules : List String) :
    Except Fault FallbackPolicy :=
  if minRegionSize < 1 then
    .error (.outOfRange "fallback.min_block_size" s!"must be at least 1, got {minRegionSize}")
  else
    let operators := NameSet.ofList operators
    let modules := NameSet.ofList modules
    match (operators.toList ++ modules.toList).find? Text.isBlankText with
    | some blank =>
      .error (.outOfRange "fallback" s!"exclusion entries must be non-blank, got '{blank}'")
    | none => .ok ⟨enabled, minRegionSize.toInt.toNat, operators, modules⟩

def enabledWithMinSize (minRegionSize : Int64) : Except Fault FallbackPolicy :=
  make true minRegionSize [] []

def excludesOperator (policy : FallbackPolicy) (kind : String) : Bool :=
  policy.excludedOperators.contains kind

def toJson (policy : FallbackPolicy) : Json :=
  .record [
    ("enabled", .bool policy.enabled), ("min_region_size", .ofNat policy.minRegionSize),
    ("excluded_operators", .texts policy.excludedOperators.toList),
    ("excluded_modules", .texts policy.excludedModules.toList)]

end FallbackPolicy

end HybridCompile
