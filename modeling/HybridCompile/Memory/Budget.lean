import HybridCompile.Json.Parser
import HybridCompile.Json.Printer

/-!
# HybridCompile — memory budgets

How many bytes of device memory may be reserved at one time.
-/

namespace HybridCompile

/-- A bound on the bytes reserved at one time. -/
inductive MemoryBudget where
  | unlimited
  | limited (bytes : UInt64)
  deriving DecidableEq, Repr

namespace MemoryBudget

/-- The budget that a workspace size asks for; a size of zero asks for no bound. -/
def ofWorkspaceSize (bytes : UInt64) : MemoryBudget :=
  if bytes = 0 then unlimited else limited bytes

def limit? : MemoryBudget → Option UInt64
  | unlimited => none
  | limited bytes => some bytes

/-- The most bytes that can be reserved: the bound, or all that can be counted. -/
def ceiling : MemoryBudget → UInt64
  | unlimited => 0xFFFFFFFFFFFFFFFF
  | limited bytes => bytes

def toJson : MemoryBudget → Json
  | unlimited => .str "unlimited"
  | limited bytes => .record [("limited", .ofNat bytes.toNat)]

def ofJson? : Json → Option MemoryBudget
  | .string (some "unlimited") => some unlimited
  | .object [(some "limited", v)] => do
    let bytes ← v.nat?
    if bytes < UInt64.size then some (limited (UInt64.ofNat bytes)) else none
  | _ => none

def debugText : MemoryBudget → String
  | unlimited => "Unlimited"
  | limited bytes => s!"Limited({bytes})"

end MemoryBudget

end HybridCompile
