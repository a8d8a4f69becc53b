import HybridCompile.Engine.Network
import HybridCompile.Proofs.Dataflow.Boundary
import HybridCompile.Proofs.Outcome
import HybridCompile.Proofs.Partition.Regions

/-!
# HybridCompile — lowering a region

A region that a plan puts on the accelerator has a network as soon as the settings describe every
graph input that the region reads. Nothing else can stand in the way.

* `lower_eq_ok_iff` — what a network takes from its region.
* `lower_toRegion_cases` — the network of a run, or the input that is not described.
-/

namespace HybridCompile

variable {g : ValidGraph} {s : Settings} {r : Region} {n : Network}

/-- What a network takes from its region: layers from the operators, inputs from the tensors that it
needs, and number, name and outputs as they are. The region has to be one for the accelerator. -/
theorem lower_eq_ok_iff :
    lower g r s = .ok n ↔
      r.isAccelerator = true ∧ r.operators.mapM (lowerOperator g r.index) = .ok n.layers ∧
        r.inputs.mapM (lowerInput g s r.index) = .ok n.inputs ∧ n.region = r.index ∧
        n.name = s!"{g.name}.region{r.index}" ∧ n.outputs = r.outputs := by
  unfold lower
  simp only [guard_eq_ok_iff, bind_eq_ok_iff, Bool.not_eq_true', Bool.not_eq_false]
  refine and_congr_right fun _ => ?_
  constructor
  · rintro ⟨layers, hlayers, inputs, hinputs, h⟩
    cases h
    exact ⟨hlayers, hinputs, rfl, rfl, rfl⟩
  · obtain ⟨region, name, layers, inputs, outputs⟩ := n
    rintro ⟨hlayers, hinputs, rfl, rfl, rfl⟩
    exact ⟨layers, hlayers, inputs, hinputs, rfl⟩

theorem lowerOperator_eq_ok_iff {region index : Nat} {layer : Layer} :
    lowerOperator g region index = .ok layer ↔
      ∃ op, g.operators[index]? = some op ∧ layer = .ofOperator op := by
  unfold lowerOperator
  cases g.operators[index]? with
  | none => simp
  | some op => simp [eq_comm]

theorem exists_lowerOperator_eq_ok {index : Nat} (h : index < g.operators.length) (region : Nat) :
    ∃ layer, lowerOperator g region index = .ok layer :=
  ⟨.ofOperator g.operators[index],
    lowerOperator_eq_ok_iff.mpr ⟨_, List.getElem?_eq_getElem h, rfl⟩⟩

/-- An input that cannot be lowered is one for which the settings end too soon: it has a place among
the graph inputs, and there is no description in it. -/
theorem length_lt_of_lowerInput_eq_error {region : Nat} {t : String} {e : LowerError}
    (h : lowerInput g s region t = .error e) : s.inputs.length < g.inputs.length := by
  unfold lowerInput at h
  cases hposition : g.inputs.findIdx? (· == t) with
  | none =>
    rw [hposition] at h
    cases h
  | some position =>
    rw [hposition] at h
    have hlt : position < g.inputs.length := (List.findIdx?_eq_some_iff_getElem.mp hposition).1
    cases hspec : s.inputs[position]? with
    | some spec =>
      simp only [hspec] at h
      cases h
    | none =>
      have hle := List.getElem?_eq_none_iff.mp hspec
      omega

/-- The region of a run for the accelerator has a network with the run's operators as layers, unless
the settings say too little. -/
theorem lower_toRegion_cases {run : Run} (htarget : run.target = .accelerator)
    (hle : run.stop ≤ g.operators.length) (index : Nat) :
    (∃ n, lower g (run.toRegion g index) s = .ok n) ∨
      ∃ e, lower g (run.toRegion g index) s = .error e ∧ s.inputs.length < g.inputs.length := by
  have haccelerator : (run.toRegion g index).isAccelerator = true := by
    show (run.target == .accelerator) = true
    rw [htarget]
    rfl
  have hoperators : ∀ i ∈ (run.toRegion g index).operators,
      ∃ layer, lowerOperator g index i = .ok layer := by
    intro i hi
    have hcovers : run.Covers i := Run.mem_range'_iff.mp hi
    exact exists_lowerOperator_eq_ok (Nat.lt_of_lt_of_le hcovers.2 hle) index
  obtain ⟨layers, hlayers⟩ := exists_mapM_eq_ok hoperators
  cases hinputs : (run.toRegion g index).inputs.mapM (lowerInput g s index) with
  | ok inputs =>
    let n : Network :=
      ⟨index, s!"{g.name}.region{index}", layers, inputs, (run.toRegion g index).outputs⟩
    exact Or.inl ⟨n, lower_eq_ok_iff.mpr ⟨haccelerator, hlayers, hinputs, rfl, rfl, rfl⟩⟩
  | error e =>
    obtain ⟨t, _, ht⟩ := exists_of_mapM_eq_error hinputs
    refine Or.inr ⟨e, ?_, length_lt_of_lowerInput_eq_error ht⟩
    unfold lower
    rw [haccelerator]
    show ((run.toRegion g index).operators.mapM (lowerOperator g index) >>= fun _ => _) = _
    rw [hlayers]
    show ((run.toRegion g index).inputs.mapM (lowerInput g s index) >>= fun _ => _) = _
    rw [hinputs]
    rfl

end HybridCompile
