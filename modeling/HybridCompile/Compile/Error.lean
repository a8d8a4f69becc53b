import HybridCompile.Compile.Config
import HybridCompile.Compile.Executable
import HybridCompile.Engine.Build
import HybridCompile.Plan.Partition

/-!
# HybridCompile — compile errors

How a compilation can end without an executable.
-/

namespace HybridCompile

/-- Why there is no executable. -/
inductive CompileError where
  | invalidSettings (fault : Fault)
  | invalidGraph (e : GraphError)
  | partition (e : PartitionError)
  /-- The engine of a region could not be built. -/
  | build (region : Nat) (e : EngineError)
  | cancelled (region : Nat) (cause : CancelCause)
  /-- The settings do not describe as many inputs as the graph has. -/
  | inputArity (graph : String) (expected actual : Nat)
  | config (e : ConfigError)
  | invalidExecutable (fault : ExecutableFault)
  /-- A build broke down, or gave nothing. -/
  | worker (region : Nat)
  deriving DecidableEq, Repr

namespace CompileError

def message : CompileError → String
  | invalidSettings fault => s!"invalid settings: {fault.message}"
  | invalidGraph e => s!"graph error: {e.message}"
  | partition e => s!"partitioning failed: {e.message}"
  | build region e => s!"engine build failed for region {region}: {e.message}"
  | cancelled region cause => s!"compile cancelled while building region {region}: {cause.text}"
  | inputArity graph expected actual =>
    s!"graph '{graph}' has {expected} inputs but {actual} input specs were given"
  | config e => s!"configuration error: {e.text}"
  | invalidExecutable fault => s!"invalid hybrid executable: {fault.text}"
  | worker region => s!"build worker failed: region {region}"

def region? : CompileError → Option Nat
  | build region _ => some region
  | cancelled region _ => some region
  | _ => none

def isCancelled : CompileError → Bool
  | cancelled _ _ => true
  | _ => false

/-- The compile error that a failed build makes. -/
def ofBuild : BuildError → CompileError
  | .failed e => build e.region e
  | .cancelled region cause => cancelled region cause
  | .crashed region => worker region

/-- The error that this one says more about. -/
def cause? : CompileError → Option String
  | invalidSettings fault => some fault.message
  | invalidGraph e => some e.message
  | partition e => some e.message
  | build _ e => some e.message
  | _ => none

/-- The warning that a failed build is worth. What a broken-down build says of itself depends on how
it broke down, so the warning on it says no more than that it did. -/
def notice : CompileError → String
  | worker _ => "build worker failed"
  | e => s!"{e.message}; cancelling remaining builds"

end CompileError

end HybridCompile
