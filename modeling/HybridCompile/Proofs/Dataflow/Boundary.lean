import HybridCompile.Plan.Partition
import HybridCompile.Proofs.Dataflow.Table

/-!
# HybridCompile — what crosses the boundary of a run

The boundary of a run is computed from the table of tensors. For a validated graph it comes out as
the uses of the tensors say: a run needs what its operators read and none of them writes, and it
hands on what its operators write and somebody still needs after them.

* `ThereAt`, `NeededAt` — what is there at a place, and what is needed from there on.
* `mem_boundary_inputs`, `mem_boundary_outputs` — the two sides.
* `NeededAt.passes` — what does not cross the boundary of a run is not touched by it.
-/

namespace HybridCompile

variable {g : ValidGraph} {start stop index : Nat} {t : String}

/-- What is named by the operators of a stretch, by place. The place `start + k` of the graph is the
place `k` of the stretch. -/
theorem mem_flatMap_stretch {side : Operator → List String} {ops : List Operator} :
    t ∈ ((ops.drop start).take (stop - start)).flatMap side ↔
      ∃ p, start ≤ p ∧ p < stop ∧ Mentions side ops p t := by
  rw [List.mem_flatMap]
  constructor
  · rintro ⟨op, hop, ht⟩
    obtain ⟨k, hk⟩ := List.mem_iff_getElem?.mp hop
    rw [List.getElem?_take] at hk
    split at hk
    · next hlt =>
      rw [List.getElem?_drop] at hk
      exact ⟨start + k, by omega, by omega, op, hk, ht⟩
    · cases hk
  · rintro ⟨p, hle, hlt, op, hop, ht⟩
    refine ⟨op, List.mem_iff_getElem?.mpr ⟨p - start, ?_⟩, ht⟩
    rw [List.getElem?_take, if_pos (by omega), List.getElem?_drop,
      show start + (p - start) = p from by omega]
    exact hop

namespace ValidGraph.Sound

/-- The table says that a tensor is produced within a stretch exactly if an operator of the stretch
writes it. -/
theorem isProducedWithin_iff (h : g.Sound) :
    g.isProducedWithin start stop t = true ↔
      ∃ p, start ≤ p ∧ p < stop ∧ Writes g.operators p t := by
  unfold ValidGraph.isProducedWithin ValidGraph.tensor?
  cases hfacts : g.tensors.get? t with
  | none =>
    have hnone := h.records.absent hfacts
    refine ⟨fun hfalse => (by cases hfalse), ?_⟩
    rintro ⟨p, _, _, hw⟩
    exact absurd (Or.inr ⟨p, hw⟩) hnone
  | some facts =>
    have hholds := h.records.holds t facts hfacts
    rw [Option.bind_some]
    constructor
    · intro hany
      obtain ⟨p, hp, hrange⟩ := (Option.any_eq_true _ _).mp hany
      rw [Bool.and_eq_true, decide_eq_true_eq, decide_eq_true_eq] at hrange
      exact ⟨p, hrange.1, hrange.2, (hholds.producer_iff p).mp hp⟩
    · rintro ⟨p, hle, hlt, hw⟩
      rw [(hholds.producer_iff p).mpr hw]
      simp [hle, hlt]

/-- The table says that a tensor is live after a place exactly if it is handed back or read later
on. The entry knows only the last reader, and that is enough: a later reader makes the last one
later. -/
theorem isLiveAfter_iff (h : g.Sound) :
    g.isLiveAfter index t = true ↔
      t ∈ g.outputs ∨ ∃ p, index < p ∧ Reads g.operators p t := by
  unfold ValidGraph.isLiveAfter ValidGraph.tensor?
  cases hfacts : g.tensors.get? t with
  | none =>
    have hnone := h.records.absent hfacts
    refine ⟨fun hfalse => (by cases hfalse), ?_⟩
    rintro (hout | ⟨p, _, hread⟩)
    · exact absurd (h.outputs_defined t hout) hnone
    · rcases h.inOrder.defined p t hread with hin | ⟨q, _, hw⟩
      · exact absurd (Or.inl hin) hnone
      · exact absurd (Or.inr ⟨q, hw⟩) hnone
  | some facts =>
    have hholds := h.records.holds t facts hfacts
    rw [Option.any_some, TensorFacts.liveAfter, Bool.or_eq_true, hholds.isOutput_iff]
    refine or_congr Iff.rfl ?_
    constructor
    · intro hany
      obtain ⟨last, hlast, hlt⟩ := (Option.any_eq_true _ _).mp hany
      exact ⟨last, of_decide_eq_true hlt, hholds.reads_last last hlast⟩
    · rintro ⟨p, hlt, hread⟩
      -- the last reader comes no earlier than `p`
      obtain ⟨last, hlast, hle⟩ := hholds.le_last p hread
      rw [hlast]
      exact decide_eq_true (by omega)

end ValidGraph.Sound

/-- A run needs from outside what it reads and does not write. -/
theorem mem_boundary_inputs (h : g.Sound) :
    t ∈ (boundary g start stop).1 ↔
      (∃ p, start ≤ p ∧ p < stop ∧ Reads g.operators p t) ∧
        ¬∃ p, start ≤ p ∧ p < stop ∧ Writes g.operators p t := by
  simp only [boundary, List.mem_eraseDups, List.mem_filter, mem_flatMap_stretch]
  rw [← h.isProducedWithin_iff, Bool.not_eq_true', Bool.not_eq_true]

/-- What is there before the operator at a place. -/
def ThereAt (g : ValidGraph) (place : Nat) (t : String) : Prop :=
  t ∈ g.inputs ∨ ∃ p < place, Writes g.operators p t

/-- What is still needed when the operators before a place are done. -/
def NeededAt (g : ValidGraph) (place : Nat) (t : String) : Prop :=
  t ∈ g.outputs ∨ ∃ p, place ≤ p ∧ Reads g.operators p t

/-- A run hands on what it writes and what is still needed after it. -/
theorem mem_boundary_outputs (h : g.Sound) (hlt : start < stop) :
    t ∈ (boundary g start stop).2 ↔
      (∃ p, start ≤ p ∧ p < stop ∧ Writes g.operators p t) ∧ NeededAt g stop t := by
  have hedge : ∀ p, stop - 1 < p ↔ stop ≤ p := fun p => by omega
  simp only [boundary, List.mem_filter, mem_flatMap_stretch, h.isLiveAfter_iff, hedge, NeededAt]

theorem thereAt_of_mem_boundary_inputs (h : g.Sound) (ht : t ∈ (boundary g start stop).1) :
    ThereAt g start t := by
  obtain ⟨⟨p, hle, hlt, hread⟩, hnone⟩ := (mem_boundary_inputs h).mp ht
  rcases h.inOrder.defined p t hread with hin | ⟨q, hq, hw⟩
  · exact Or.inl hin
  · by_cases hstart : start ≤ q
    · exact absurd ⟨q, hstart, by omega, hw⟩ hnone
    · exact Or.inr ⟨q, by omega, hw⟩

theorem neededAt_of_mem_boundary_inputs (h : g.Sound) (ht : t ∈ (boundary g start stop).1) :
    NeededAt g start t := by
  obtain ⟨⟨p, hle, _, hread⟩, _⟩ := (mem_boundary_inputs h).mp ht
  exact Or.inr ⟨p, hle, hread⟩

theorem thereAt_of_mem_boundary_outputs (h : g.Sound) (hlt : start < stop)
    (ht : t ∈ (boundary g start stop).2) : ThereAt g stop t := by
  obtain ⟨⟨p, _, hp, hw⟩, _⟩ := (mem_boundary_outputs h hlt).mp ht
  exact Or.inr ⟨p, hp, hw⟩

/-- What is needed after a run is handed on by it, or was needed before it and is not touched. -/
theorem NeededAt.passes (hneeded : NeededAt g stop t) (h : g.Sound) (hlt : start < stop)
    (hout : t ∉ (boundary g start stop).2) :
    NeededAt g start t ∧ ¬∃ p, start ≤ p ∧ p < stop ∧ Writes g.operators p t := by
  constructor
  · exact hneeded.imp_right fun ⟨p, hp, hread⟩ => ⟨p, by omega, hread⟩
  · intro hw
    exact hout ((mem_boundary_outputs h hlt).mpr ⟨hw, hneeded⟩)

theorem ValidGraph.Sound.thereAt_length (h : g.Sound) (ht : t ∈ g.outputs) :
    ThereAt g g.operators.length t := by
  rcases h.outputs_defined t ht with hin | ⟨p, hw⟩
  · exact Or.inl hin
  · exact Or.inr ⟨p, hw.lt, hw⟩

end HybridCompile
