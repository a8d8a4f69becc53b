import HybridCompile.Calibration.Mode
import HybridCompile.Graph.Operator
import HybridCompile.Text.NameSet
import HybridCompile.Text.Quoted

/-!
# HybridCompile — operator support

An oracle says of an operator whether the accelerator can run it, under the way the graph is
lowered. The usual oracle is a table of operator kinds.
-/

namespace HybridCompile

/-- Whether an operator can run on the accelerator. -/
inductive Support where
  | convertible
  | unsupported (reason : String)
  deriving DecidableEq, Repr

/-- A source of answers about operators. -/
structure Oracle where
  name : String
  classify : Operator → LoweringMode → Support

def Oracle.partitionerText (o : Oracle) : String :=
  s!"Partitioner \x7b support: {Text.quoted o.name} \x7d"

/-- A table of the operator kinds that can run on the accelerator. -/
structure SupportTable where
  supported : NameSet
  /-- The kinds that can run there only when the graph's modules are frozen. -/
  frozenOnly : NameSet
  /-- Whether kinds that are not in the table can run there as well. -/
  acceptsAll : Bool
  deriving DecidableEq, Repr

namespace SupportTable

def ofKinds (kinds : List String) : SupportTable := ⟨.ofList kinds, .empty, false⟩

/-- A table that has everything run on the accelerator. -/
def acceptAll : SupportTable := ⟨.empty, .empty, true⟩

/-- Add kinds that need frozen modules. -/
def withFrozenOnly (t : SupportTable) (kinds : List String) : SupportTable :=
  { t with supported := t.supported.insertAll kinds, frozenOnly := t.frozenOnly.insertAll kinds }

def name (t : SupportTable) : String :=
  if t.acceptsAll then "accept-all" else "support-table"

/-- What the table says of an operator. -/
def classify (t : SupportTable) (op : Operator) (lowering : LoweringMode) : Support :=
  if lowering.unfreezeModule && t.frozenOnly.contains op.kind then
    .unsupported s!"'{op.kind}' converts only from a frozen module"
  else if t.acceptsAll || t.supported.contains op.kind then .convertible
  else .unsupported s!"no converter for '{op.kind}'"

def toOracle (t : SupportTable) : Oracle := ⟨t.name, t.classify⟩

end SupportTable

end HybridCompile
