import HybridCompile.Proofs.Dataflow.Boundary
import HybridCompile.Proofs.Dataflow.WellFormed
import Mathlib.Order.Bounds.Defs

/-!
# HybridCompile — the facts on each tensor

The entry of a tensor is overwritten at each read, so what it says at the end is about all uses at
once: the only writer, the last of the readers, and whether the tensor is handed back. What follows
from an entry, and from all of them together, is said here of the graph as it was loaded.

* `TensorFacts.StateFlow` — all that an entry says, and what is derived from it.
* `Graph.LeavesUnread` — an operator that nobody needs; `warnings_eq` counts those.
-/

namespace HybridCompile

variable {g : ValidGraph} {t : String}

theorem InOrder.writer_lt_reader {inputs : List String} {ops : List Operator} {p q : Nat}
    (h : InOrder inputs ops) (hw : Writes ops p t) (hr : Reads ops q t) : p < q := by
  rcases h.defined q t hr with hin | ⟨p', hp', hw'⟩
  · exact absurd hin (h.not_mem_inputs_of_writes hw)
  · rwa [h.writer_eq hw hw']

/-! ## One entry -/

/-- What an entry says of a tensor is how the graph uses it. -/
structure TensorFacts.StateFlow (facts : TensorFacts) (g : Graph) (t : String) : Prop where
  producer_none_iff : facts.producer? = none ↔ t ∈ g.inputs
  producer_iff : ∀ place, facts.producer? = some place ↔ Writes g.operators place t
  lastReader_none_iff : facts.lastReader? = none ↔ ∀ place, ¬Reads g.operators place t
  lastReader_iff : ∀ place,
    facts.lastReader? = some place ↔ IsGreatest {p | Reads g.operators p t} place
  producer_lt_lastReader : ∀ p q, facts.producer? = some p → facts.lastReader? = some q → p < q
  isOutput_iff : facts.isOutput = true ↔ t ∈ g.outputs
  liveAfter_iff : ∀ index, facts.liveAfter index = true ↔
    t ∈ g.outputs ∨ ∃ p, index < p ∧ Reads g.operators p t

section Entry

variable {facts : TensorFacts} {ops : List Operator} {handedBack : List String}

/-- The last reader of an entry that holds is the greatest place at which the tensor is read. -/
theorem TensorFacts.Holds.lastReader_iff (h : facts.Holds ops handedBack t) (place : Nat) :
    facts.lastReader? = some place ↔ IsGreatest {p | Reads ops p t} place := by
  constructor
  · intro hlast
    refine ⟨h.reads_last place hlast, fun p hp => ?_⟩
    obtain ⟨last, hlast', hle⟩ := h.le_last p hp
    rw [hlast] at hlast'
    cases hlast'
    exact hle
  · rintro ⟨hreads, hgreatest⟩
    obtain ⟨last, hlast, hle⟩ := h.le_last place hreads
    have hle' : last ≤ place := hgreatest (h.reads_last last hlast)
    rw [hlast, Nat.le_antisymm hle' hle]

/-- An entry that holds has no last reader exactly if nobody reads the tensor. -/
theorem TensorFacts.Holds.lastReader_none_iff (h : facts.Holds ops handedBack t) :
    facts.lastReader? = none ↔ ∀ place, ¬Reads ops place t := by
  constructor
  · intro hnone place hreads
    obtain ⟨last, hlast, _⟩ := h.le_last place hreads
    rw [hnone] at hlast
    cases hlast
  · intro hnone
    cases hlast : facts.lastReader? with
    | none => rfl
    | some place => exact absurd (h.reads_last place hlast) (hnone place)

namespace ValidGraph.Sound

theorem tensor?_isSome_iff (h : g.Sound) :
    (g.tensor? t).isSome = true ↔ t ∈ g.inputs ∨ ∃ place, Writes g.operators place t :=
  h.records.isSome_iff t

/-- A tensor that has an entry has no producer exactly when it is supplied by the caller. It cannot
be both, because in order no operator writes a graph input. -/
theorem producer_none_iff (h : g.Sound) (hfacts : g.tensor? t = some facts) :
    facts.producer? = none ↔ t ∈ g.inputs := by
  have hholds := h.records.holds t facts hfacts
  constructor
  · intro hnone
    have hthere := h.tensor?_isSome_iff.mp (Option.isSome_iff_exists.mpr ⟨facts, hfacts⟩)
    rcases hthere with hin | ⟨place, hw⟩
    · exact hin
    · rw [(hholds.producer_iff place).mpr hw] at hnone
      cases hnone
  · intro hin
    cases hproducer : facts.producer? with
    | none => rfl
    | some place =>
      have hw := (hholds.producer_iff place).mp hproducer
      exact absurd hin (h.inOrder.not_mem_inputs_of_writes hw)

/-- Every entry of a sound graph states how the tensor flows. The fields come from
`TensorFacts.Holds`, and what is derived from them, such as liveness, follows. -/
theorem stateFlow (h : g.Sound) (hfacts : g.tensor? t = some facts) :
    facts.StateFlow g.toGraph t := by
  have hholds := h.records.holds t facts hfacts
  refine ⟨h.producer_none_iff hfacts, hholds.producer_iff, hholds.lastReader_none_iff,
    hholds.lastReader_iff, ?_, hholds.isOutput_iff, ?_⟩
  · intro p q hp hq
    exact h.inOrder.writer_lt_reader ((hholds.producer_iff p).mp hp) (hholds.reads_last q hq)
  · intro index
    rw [← h.isLiveAfter_iff, ValidGraph.isLiveAfter, hfacts, Option.any_some]

theorem isGraphInput_iff (h : g.Sound) : g.isGraphInput t = true ↔ t ∈ g.inputs := by
  unfold ValidGraph.isGraphInput
  cases hfacts : g.tensor? t with
  | none =>
    have hnone := h.records.absent hfacts
    exact ⟨fun hany => (by cases hany), fun hin => absurd (Or.inl hin) hnone⟩
  | some facts => rw [Option.any_some, Option.isNone_iff_eq_none, h.producer_none_iff hfacts]

end ValidGraph.Sound

end Entry

/-! ## Operators that nobody needs -/

/-- The operator writes something, but nothing that is read or handed back. -/
def Graph.LeavesUnread (g : Graph) (op : Operator) : Prop :=
  op.outputs ≠ [] ∧ ∀ t ∈ op.outputs, t ∉ g.outputs ∧ ∀ other ∈ g.operators, t ∉ other.inputs

instance (g : Graph) (op : Operator) : Decidable (g.LeavesUnread op) := by
  unfold Graph.LeavesUnread
  infer_instance

/-- How many operators leave all that they write unread. -/
def Graph.unreadCount (g : Graph) : Nat := g.operators.countP fun op => g.LeavesUnread op

namespace ValidGraph.Sound

/-- Whoever reads what an operator writes comes after it, so only what is live after the operator
is ever read. -/
theorem not_liveAfter_iff (h : g.Sound) {op : Operator} (hop : op ∈ g.operators)
    (ht : t ∈ op.outputs) :
    ((g.tensor? t).any fun facts => !facts.liveAfter op.index) = true ↔
      t ∉ g.outputs ∧ ∀ other ∈ g.operators, t ∉ other.inputs := by
  obtain ⟨place, hplace⟩ := List.mem_iff_getElem?.mp hop
  have hw : Writes g.operators place t := ⟨op, hplace, ht⟩
  obtain ⟨facts, hfacts⟩ :=
    Option.isSome_iff_exists.mp (h.tensor?_isSome_iff.mpr (Or.inr ⟨place, hw⟩))
  rw [hfacts, Option.any_some, Bool.not_eq_true', ← Bool.not_eq_true,
    (h.stateFlow hfacts).liveAfter_iff, h.inOrder.index_eq place op hplace, not_or]
  refine and_congr_right fun _ => ?_
  constructor
  · intro hnone other hother hreads
    obtain ⟨p, hp⟩ := List.mem_iff_getElem?.mp hother
    have hread : Reads g.operators p t := ⟨other, hp, hreads⟩
    exact hnone ⟨p, h.inOrder.writer_lt_reader hw hread, hread⟩
  · rintro hnone ⟨p, _, other, hother, hreads⟩
    exact hnone other (List.mem_of_getElem? hother) hreads

/-- The operators that are warned of are as many as there are: `not_liveAfter_iff` for each of their
outputs. -/
theorem length_unreadOperators (h : g.Sound) :
    g.unreadOperators.length = g.toGraph.unreadCount := by
  rw [Graph.unreadCount, List.countP_eq_length_filter, ValidGraph.unreadOperators]
  congr 1
  apply List.filter_congr
  intro op hop
  rw [Bool.eq_iff_iff, Bool.and_eq_true, decide_eq_true_iff, Graph.LeavesUnread]
  refine and_congr ?_ ?_
  · simp
  · rw [List.all_eq_true]
    exact forall₂_congr fun t ht => h.not_liveAfter_iff hop ht

/-- There is one warning when there are such operators, with their number, and none otherwise.
`unreadCount` is above zero exactly when some operator `LeavesUnread`. -/
theorem warnings_eq (h : g.Sound) :
    g.warnings = if ∃ op ∈ g.operators, g.LeavesUnread op then
      [s!"graph '{g.name}' has {g.toGraph.unreadCount} operator(s) whose outputs are never read"]
    else [] := by
  have hpos : 0 < g.toGraph.unreadCount ↔ ∃ op ∈ g.operators, g.LeavesUnread op := by
    simp [Graph.unreadCount, List.countP_pos_iff]
  rw [ValidGraph.warnings, h.length_unreadOperators]
  split
  · next hzero =>
    rw [if_neg]
    rw [← hpos, hzero]
    exact Nat.lt_irrefl 0
  · next hcount =>
    rw [if_pos]
    rw [← hpos]
    exact Nat.pos_of_ne_zero hcount

end ValidGraph.Sound

/-- For every graph that is accepted: its table has an entry for each tensor that is there and for
no other, the entry says how the tensor is used, and there is a warning exactly when operators do
work that nobody looks at, with their number. -/
theorem table_states_flow {raw : Graph} (h : raw.validate = .ok g) :
    (∀ t, ((g.tensor? t).isSome = true ↔ t ∈ raw.inputs ∨ ∃ place, Writes raw.operators place t) ∧
      (g.isGraphInput t = true ↔ t ∈ raw.inputs) ∧
      ∀ facts, g.tensor? t = some facts → facts.StateFlow raw t) ∧
    (∀ (place : Nat) (op : Operator), raw.operators[place]? = some op → op.index = place) ∧
    g.warnings = if ∃ op ∈ raw.operators, raw.LeavesUnread op then
      [s!"graph '{raw.name}' has {raw.unreadCount} operator(s) whose outputs are never read"]
    else [] := by
  have hsound := Graph.sound_of_validate h
  obtain rfl := toGraph_of_validate h
  refine ⟨fun t => ⟨hsound.tensor?_isSome_iff, hsound.isGraphInput_iff, ?_⟩,
    hsound.inOrder.index_eq, hsound.warnings_eq⟩
  intro facts hfacts
  exact hsound.stateFlow hfacts

/-! ## An instance

`t0` is read three times, twice by one operator. What `b` writes nobody reads; `d` writes nothing,
which is no waste. -/

def wasteful : Graph :=
  { name := "wasteful", inputs := ["x"],
    operators := [
      ⟨"a", "split", [], 0, ["x"], ["t0", "t1"]⟩, ⟨"b", "add", [], 1, ["t0", "x", "t0"], ["t2"]⟩,
      ⟨"c", "add", [], 2, ["t1", "t0"], ["t3"]⟩, ⟨"d", "print", [], 3, ["t3"], []⟩],
    outputs := ["t3", "x"] }

/-- What validation makes of the graph. -/
def wastefulValid : ValidGraph :=
  { wasteful with
    tensors := [
      ("t3", ⟨some 2, some 3, true⟩), ("t2", ⟨some 1, none, false⟩),
      ("t1", ⟨some 0, some 2, false⟩), ("t0", ⟨some 0, some 2, false⟩),
      ("x", ⟨none, some 1, true⟩)] }

/-- The entries of the graph state the flow of its tensors, and one operator is warned of. -/
theorem table_states_flow_wasteful :
    wasteful.validate = .ok wastefulValid ∧
      wastefulValid.tensor? "t0" = some ⟨some 0, some 2, false⟩ ∧
      TensorFacts.StateFlow ⟨some 0, some 2, false⟩ wasteful "t0" ∧
      wastefulValid.isGraphInput "x" = true ∧ "x" ∈ wasteful.inputs ∧
      wastefulValid.warnings =
        ["graph 'wasteful' has 1 operator(s) whose outputs are never read"] := by
  have hvalid : wasteful.validate = .ok wastefulValid := by decide
  have hentry : wastefulValid.tensor? "t0" = some ⟨some 0, some 2, false⟩ := by decide
  have hinput : wastefulValid.isGraphInput "x" = true := by decide
  obtain ⟨htable, _, hwarnings⟩ := table_states_flow hvalid
  have hunread : ∃ op ∈ wasteful.operators, wasteful.LeavesUnread op := by decide
  rw [if_pos hunread] at hwarnings
  exact ⟨hvalid, hentry, (htable "t0").2.2 _ hentry, hinput, (htable "x").2.1.mp hinput,
    hwarnings⟩

end HybridCompile
