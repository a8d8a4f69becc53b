import HybridCompile.Engine.Network
import HybridCompile.Proofs.Outcome

/-!
# HybridCompile — what graphs and plans compute

The library compiles graphs and never runs them. What they mean is said here, for any
interpretation of the operators: a graph executes its operators in order in one environment, and a
plan executes its regions in order, each in an environment of its own that holds what crosses its
boundary and nothing else.

* `Interpretation`, `Env` — what operators compute, and what is computed so far.
* `runGraph`, `runPlan` — the two ways of executing.
-/

namespace HybridCompile

variable {V : Type}

/-- What each operator computes from the values of its inputs: one value for each of its outputs. -/
structure Interpretation (V : Type) where
  apply : Operator → List V → List V
  length_apply : ∀ op values, (apply op values).length = op.outputs.length

/-- The tensors that are there, with their values. -/
abbrev Env (V : Type) := String → Option V

/-- Why execution stops. -/
inductive ExecFault where
  /-- A tensor is read that is not there. -/
  | undefinedTensor (tensor : String)
  /-- A region has an operator that the graph does not have. -/
  | noOperator (index : Nat)
  /-- A network has a layer that stands for no operator of the graph. -/
  | unknownLayer (name : String)
  /-- A region for the accelerator has no network. -/
  | notLowered (e : LowerError)

namespace Env

def empty : Env V := fun _ => none

def ofInputs (inputs : List String) (values : String → V) : Env V :=
  fun t => if t ∈ inputs then some (values t) else none

def read (env : Env V) (tensor : String) : Except ExecFault V :=
  match env tensor with
  | some v => .ok v
  | none => .error (.undefinedTensor tensor)

/-- Give values to tensors. -/
def bind (env : Env V) (tensors : List String) (values : List V) : Env V :=
  fun t => ((tensors.zip values).lookup t).or (env t)

/-- Take tensors over from one environment into another. -/
def transfer (source target : Env V) (tensors : List String) : Except ExecFault (Env V) := do
  return target.bind tensors (← tensors.mapM source.read)

end Env

/-- Execute an operator that reads the tensors `inputs` and writes the tensors `outputs`. -/
def execute (I : Interpretation V) (op : Operator) (inputs outputs : List String) (env : Env V) :
    Except ExecFault (Env V) := do
  return env.bind outputs (I.apply op (← inputs.mapM env.read))

/-- Execute the operator at a place, wired as the graph has it. -/
def runIndex (I : Interpretation V) (g : ValidGraph) (env : Env V) (index : Nat) :
    Except ExecFault (Env V) :=
  match g.operators[index]? with
  | some op => execute I op op.inputs op.outputs env
  | none => .error (.noOperator index)

/-- Execute a layer. It stands for the operator of its name and its kind, and is wired as it says
itself. -/
def runLayer (I : Interpretation V) (g : ValidGraph) (env : Env V) (layer : Layer) :
    Except ExecFault (Env V) :=
  match g.operators.find? fun op => op.name == layer.name && op.kind == layer.kind with
  | some op => execute I op layer.inputs layer.outputs env
  | none => .error (.unknownLayer layer.name)

/-- Execute what is in a region: the layers of its network, or its operators by index. -/
def runBody (I : Interpretation V) (g : ValidGraph) (s : Settings) (r : Region) (env : Env V) :
    Except ExecFault (Env V) :=
  if r.isAccelerator then
    match lower g r s with
    | .ok n => n.layers.foldlM (runLayer I g) env
    | .error e => .error (.notLowered e)
  else r.operators.foldlM (runIndex I g) env

/-- Execute a region. It sees its inputs alone, and only its outputs are seen after it. -/
def runRegion (I : Interpretation V) (g : ValidGraph) (s : Settings) (env : Env V) (r : Region) :
    Except ExecFault (Env V) := do
  let seen ← env.transfer .empty r.inputs
  let made ← runBody I g s r seen
  made.transfer env r.outputs

/-- Execute all operators of a graph in one environment. -/
def runGraph (I : Interpretation V) (g : ValidGraph) (values : String → V) :
    Except ExecFault (Env V) :=
  g.operators.foldlM (fun env op => execute I op op.inputs op.outputs env)
    (.ofInputs g.inputs values)

/-- Execute the regions of a plan in order. Between them there is only what crosses their
boundaries. -/
def runPlan (I : Interpretation V) (g : ValidGraph) (s : Settings) (plan : Plan)
    (values : String → V) : Except ExecFault (Env V) :=
  plan.regions.foldlM (runRegion I g s) (.ofInputs g.inputs values)

/-! ## Environments -/

section Env

variable {env source target : Env V} {t : String} {tensors : List String} {values : List V}

theorem Env.read_eq_ok_iff {v : V} : env.read t = .ok v ↔ env t = some v := by
  unfold Env.read
  cases env t <;> simp

theorem Env.bind_cons {first : String} {v : V} :
    env.bind (first :: tensors) (v :: values) t =
      if t = first then some v else env.bind tensors values t := by
  by_cases h : t = first
  · simp [Env.bind, h]
  · have hne : (t == first) = false := beq_eq_false_iff_ne.mpr h
    simp [Env.bind, List.lookup_cons, hne, h]

/-- What is not bound is as it was. Induction on the tensors. -/
theorem Env.bind_of_not_mem (h : t ∉ tensors) : env.bind tensors values t = env t := by
  induction tensors generalizing values with
  | nil => rfl
  | cons first rest ih =>
    rw [List.mem_cons, not_or] at h
    cases values with
    | nil => rfl
    | cons v others => rw [bind_cons, if_neg h.1, ih h.2]

/-- What a tensor is bound to does not depend on what was there before. Induction on the tensors and
their values. -/
theorem Env.exists_bind_eq_some (hlength : values.length = tensors.length) (h : t ∈ tensors) :
    ∃ v, ∀ env : Env V, env.bind tensors values t = some v := by
  induction tensors generalizing values with
  | nil => cases h
  | cons first rest ih =>
    cases values with
    | nil => cases hlength
    | cons v others =>
      by_cases hfirst : t = first
      · exact ⟨v, fun env => by rw [bind_cons, if_pos hfirst]⟩
      · have hrest : t ∈ rest := (List.mem_cons.mp h).resolve_left hfirst
        obtain ⟨w, hw⟩ := ih (Nat.succ.inj hlength) hrest
        exact ⟨w, fun env => by rw [bind_cons, if_neg hfirst, hw env]⟩

/-- Bound to what was read elsewhere, tensors are as they are there. Induction on the tensors that
were read. -/
theorem Env.bind_of_reads (h : tensors.mapM source.read = .ok values) :
    target.bind tensors values t = if t ∈ tensors then source t else target t := by
  have hreads := mapM_eq_ok_iff.mp h
  clear h
  induction hreads with
  | nil => rfl
  | @cons first v rest others hv _ ih =>
    rw [bind_cons, ih]
    by_cases hfirst : t = first
    · subst hfirst
      rw [if_pos rfl, if_pos List.mem_cons_self, read_eq_ok_iff.mp hv]
    · simp [hfirst]

/-- Tensors that are there can be taken over, and no others change. -/
theorem Env.exists_transfer_eq_ok (target : Env V)
    (h : ∀ t ∈ tensors, ∃ v, source t = some v) :
    ∃ env, source.transfer target tensors = .ok env ∧
      ∀ t, env t = if t ∈ tensors then source t else target t := by
  have hreads : ∀ t ∈ tensors, ∃ v, source.read t = .ok v := by
    intro t ht
    obtain ⟨v, hv⟩ := h t ht
    exact ⟨v, read_eq_ok_iff.mpr hv⟩
  obtain ⟨values, hvalues⟩ := exists_mapM_eq_ok hreads
  refine ⟨target.bind tensors values, ?_, fun t => bind_of_reads hvalues⟩
  unfold transfer
  rw [hvalues]
  rfl

end Env

end HybridCompile
