import HybridCompile.Graph.Operator
import HybridCompile.Text.NameSet

/-!
# HybridCompile — graphs

A graph is a list of operators in the order of execution, with the tensors that the caller supplies
and those that are handed back. Nothing is known yet about how the tensors flow; that is settled by
`Graph.validate`.
-/

namespace HybridCompile

/-- A graph as it was loaded. -/
structure Graph where
  name : String
  /-- The tensors supplied by the caller, in the order in which they are bound. -/
  inputs : List String
  /-- The operators, in the order of execution. -/
  operators : List Operator
  /-- The tensors handed back. -/
  outputs : List String
  deriving DecidableEq, Repr, Inhabited

namespace Graph

def kindCount (g : Graph) : Nat :=
  (NameSet.ofList (g.operators.map Operator.kind)).toList.length

def summary (g : Graph) : String :=
  s!"Graph '{g.name}': {g.operators.length} operators ({g.kindCount} kinds), " ++
    s!"{g.inputs.length} inputs, {g.outputs.length} outputs"

def text (g : Graph) : String :=
  s!"ComputeGraph '{g.name}' ({g.operators.length} operators):\n" ++
    String.join (g.operators.map fun op => s!"  {op.summary}\n")

end Graph

/-- Why a graph is malformed. -/
inductive GraphError where
  | noOperators
  /-- A graph input is listed twice. -/
  | repeatedInput (tensor : String)
  /-- An operator does not carry its place as its index. -/
  | misplaced (operator : String) (place index : Nat)
  | repeatedOperator (operator : String)
  | blankKind (operator : String)
  /-- An operator reads a tensor that nothing produced before it. -/
  | undefinedTensor (operator tensor : String)
  /-- An operator writes a tensor that is there already. -/
  | secondProducer (operator tensor : String)
  /-- A graph output that nothing produces. -/
  | undefinedOutput (tensor : String)
  deriving DecidableEq, Repr

def GraphError.message : GraphError → String
  | noOperators => "invalid graph: graph contains no operators"
  | repeatedInput tensor => s!"invalid graph: graph input '{tensor}' is declared twice"
  | misplaced operator place index =>
    s!"invalid operator '{operator}': expected index {place}, got {index}"
  | repeatedOperator operator => s!"invalid operator '{operator}': duplicate operator name"
  | blankKind operator => s!"invalid operator '{operator}': operator kind is empty"
  | undefinedTensor operator tensor =>
    s!"operator '{operator}' reads undefined tensor '{tensor}'"
  | secondProducer operator tensor =>
    s!"invalid operator '{operator}': tensor '{tensor}' already has a producer"
  | undefinedOutput tensor => s!"invalid graph: graph output '{tensor}' is never produced"

end HybridCompile
