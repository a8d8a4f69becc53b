import HybridCompile.Graph.Basic
import HybridCompile.Text.Blank

/-!
# HybridCompile — the flow of tensors

Validating a graph walks its operators once and keeps a table of tensors: who produces each, who
reads it last, and whether it is handed back. What fails is the first thing on that walk that is
not as it should be; what comes out is the graph with the finished table.

* `TensorFacts`, `TensorTable` — what is known about tensors; `get?_declare?` and `get?_modify?` say
  what a change to the table changes.
* `ValidGraph`, `Graph.validate` — a graph with its table.
* `ValidGraph.unreadOperators` — operators whose work nobody looks at; they are kept, with a
  warning.
-/

namespace HybridCompile

/-- What is known about a tensor. -/
structure TensorFacts where
  /-- The index of the operator that writes it; `none` for a graph input. -/
  producer? : Option Nat
  /-- The index of the last operator that reads it. -/
  lastReader? : Option Nat
  /-- Whether it is handed back to the caller. -/
  isOutput : Bool
  deriving DecidableEq, Repr

/-- Whether a tensor is still needed once operator `index` is done. -/
def TensorFacts.liveAfter (facts : TensorFacts) (index : Nat) : Bool :=
  facts.isOutput || facts.lastReader?.any (index < ·)

/-- What is known about each tensor, by name. A tensor stands in the table once. -/
abbrev TensorTable := List (String × TensorFacts)

namespace TensorTable

def get? (table : TensorTable) (name : String) : Option TensorFacts :=
  match table with
  | [] => none
  | (other, facts) :: rest => if other = name then some facts else get? rest name

/-- Add a tensor that is not in the table yet. -/
def declare? (table : TensorTable) (name : String) (producer? : Option Nat) : Option TensorTable :=
  match table.get? name with
  | some _ => none
  | none => some ((name, ⟨producer?, none, false⟩) :: table)

/-- Change what is known about a tensor of the table. -/
def modify? (table : TensorTable) (name : String) (f : TensorFacts → TensorFacts) :
    Option TensorTable :=
  match table with
  | [] => none
  | (other, facts) :: rest =>
    if other = name then some ((other, f facts) :: rest)
    else (modify? rest name f).map ((other, facts) :: ·)

def read? (table : TensorTable) (name : String) (index : Nat) : Option TensorTable :=
  table.modify? name fun facts => { facts with lastReader? := some index }

def handBack? (table : TensorTable) (name : String) : Option TensorTable :=
  table.modify? name fun facts => { facts with isOutput := true }

/-! A change is seen at the name that it is about, and nowhere else; it fails where that name is,
or is not, in the table. -/

theorem get?_declare? {table table' : TensorTable} {name : String} {producer? : Option Nat}
    (h : table.declare? name producer? = some table') (x : String) :
    table'.get? x = if x = name then some ⟨producer?, none, false⟩ else table.get? x := by
  unfold declare? at h
  split at h
  · exact absurd h (by simp)
  · cases h
    simp only [get?, eq_comm]

theorem declare?_isSome (table : TensorTable) (name : String) (producer? : Option Nat) :
    (table.declare? name producer?).isSome = (table.get? name).isNone := by
  unfold declare?
  split <;> simp_all

theorem get?_modify? {table table' : TensorTable} {name : String} {f : TensorFacts → TensorFacts}
    (h : table.modify? name f = some table') (x : String) :
    table'.get? x = if x = name then (table.get? x).map f else table.get? x := by
  induction table generalizing table' with
  | nil => exact absurd h (by simp [modify?])
  | cons entry rest ih =>
    obtain ⟨other, facts⟩ := entry
    unfold modify? at h
    split at h
    · next hother =>
      subst hother
      cases h
      by_cases hx : other = x
      · simp [get?, hx]
      · simp [get?, hx, Ne.symm hx]
    · next hother =>
      obtain ⟨rest', hrest, rfl⟩ := Option.map_eq_some_iff.1 h
      by_cases hx : other = x
      · subst hx
        simp [get?, hother]
      · simp [get?, hx, ih hrest]

theorem modify?_isSome (table : TensorTable) (name : String) (f : TensorFacts → TensorFacts) :
    (table.modify? name f).isSome = (table.get? name).isSome := by
  induction table with
  | nil => rfl
  | cons entry rest ih =>
    obtain ⟨other, facts⟩ := entry
    by_cases h : other = name <;> simp [modify?, get?, h, ih]

end TensorTable

/-- A graph with what is known about its tensors. -/
structure ValidGraph extends Graph where
  tensors : TensorTable
  deriving DecidableEq, Repr

namespace Graph

/-- `some` value, or an error. -/
def orError {α ε : Type} (e : ε) : Option α → Except ε α
  | some a => .ok a
  | none => .error e

/-- The table with the graph inputs alone. -/
def declareInputs (inputs : List String) : Except GraphError TensorTable :=
  inputs.foldlM (fun table tensor =>
    orError (.repeatedInput tensor) (table.declare? tensor none)) []

/-- Walk past one operator: its index, its name and its kind are looked at first, then what it
reads, then what it writes. `names` are those of the operators before it. -/
def scanOperator (table : TensorTable) (names : List String) (place : Nat) (op : Operator) :
    Except GraphError TensorTable := do
  if op.index ≠ place then throw (.misplaced op.name place op.index)
  if names.contains op.name then throw (.repeatedOperator op.name)
  if Text.isBlankText op.kind then throw (.blankKind op.name)
  -- Reading comes first: an operator cannot read what it writes itself.
  let table ← op.inputs.foldlM (fun table tensor =>
    orError (.undefinedTensor op.name tensor) (table.read? tensor place)) table
  op.outputs.foldlM (fun table tensor =>
    orError (.secondProducer op.name tensor) (table.declare? tensor (some place))) table

/-- Walk past operators, the first of which stands at `place`. -/
def scan (table : TensorTable) (names : List String) (place : Nat) :
    List Operator → Except GraphError TensorTable
  | [] => .ok table
  | op :: rest => do
    scan (← scanOperator table names place op) (op.name :: names) (place + 1) rest

def handBack (table : TensorTable) (outputs : List String) : Except GraphError TensorTable :=
  outputs.foldlM (fun table tensor =>
    orError (.undefinedOutput tensor) (table.handBack? tensor)) table

/-- Look the whole graph over. -/
def validate (g : Graph) : Except GraphError ValidGraph := do
  if g.operators.isEmpty then throw .noOperators
  let table ← declareInputs g.inputs
  let table ← scan table [] 0 g.operators
  let table ← handBack table g.outputs
  return { g with tensors := table }

end Graph

namespace ValidGraph

def tensor? (g : ValidGraph) (name : String) : Option TensorFacts := g.tensors.get? name

def isGraphInput (g : ValidGraph) (name : String) : Bool :=
  (g.tensor? name).any (·.producer?.isNone)

/-- The operators that write something but nothing that is read later or handed back. -/
def unreadOperators (g : ValidGraph) : List Operator :=
  g.operators.filter fun op =>
    !op.outputs.isEmpty &&
      op.outputs.all fun t => (g.tensor? t).any fun facts => !facts.liveAfter op.index

def warnings (g : ValidGraph) : List String :=
  match g.unreadOperators.length with
  | 0 => []
  | n => [s!"graph '{g.name}' has {n} operator(s) whose outputs are never read"]

end ValidGraph

end HybridCompile
