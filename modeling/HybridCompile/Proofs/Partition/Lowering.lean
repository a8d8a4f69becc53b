import HybridCompile.Proofs.Partition.Placement

/-!
# HybridCompile — what the lowering decides

How a graph is lowered matters to its partition only through the operators whose kinds need frozen
modules, and of these only through those that the settings leave to the accelerator.

* `FallbackPolicy.Excludes` — an operator that falls back in any case.
* `partition_congr`, `partition_eq_of_frozenOnly` — settings that divide a graph alike.
-/

namespace HybridCompile

/-- The policy has an operator fall back, whatever the accelerator can do. -/
def FallbackPolicy.Excludes (policy : FallbackPolicy) (op : Operator) : Prop :=
  policy.excludesOperator op.kind = true ∨
    ∃ module ∈ op.modulePath, policy.excludedModules.contains module = true

variable {oracle : Oracle} {g : ValidGraph} {s s' : Settings}

/-- Where the policy decides nobody asks the oracle, so the lowering makes a difference only to
operators that the policy leaves to it. -/
theorem verdict_congr {policy : FallbackPolicy} {lowering lowering' : LoweringMode} {op : Operator}
    (h : policy.Excludes op ∨ oracle.classify op lowering = oracle.classify op lowering') :
    verdict oracle policy lowering op = verdict oracle policy lowering' op := by
  unfold verdict
  split
  · rfl
  · next hkind =>
    split
    · rfl
    · next hmodules =>
      rcases h with (hexcludes | ⟨module, hmem, hexcludes⟩) | hclassify
      · exact absurd hexcludes hkind
      · exact absurd hexcludes (List.find?_eq_none.mp hmodules module hmem)
      · rw [hclassify]

/-- A search that is told the same of all operators finds the same. Induction on the operators. -/
theorem firstFallback_congr {v v' : Operator → Option FallbackReason} {ops : List Operator}
    (h : ∀ op ∈ ops, v op = v' op) : firstFallback v ops = firstFallback v' ops := by
  induction ops with
  | nil => rfl
  | cons op rest ih =>
    obtain ⟨hop, hrest⟩ := List.forall_mem_cons.mp h
    rw [firstFallback, firstFallback, hop, ih hrest]

/-- Settings with one fallback policy whose verdicts on the operators of the graph agree give one
partition. Both ways to a plan, the search and the runs, ask for verdicts only. -/
theorem partition_congr (hfallback : s'.fallback = s.fallback)
    (h : ∀ op ∈ g.operators, verdict oracle s.fallback s'.lowering op =
      verdict oracle s.fallback s.lowering op) :
    partition oracle g s' = partition oracle g s := by
  have hruns : runs oracle g s' = runs oracle g s := by
    unfold runs
    dsimp only
    rw [hfallback, List.map_congr_left h, firstFallback_congr h]
  unfold partition
  rw [hruns]

namespace SupportTable

/-- Only of a kind that needs frozen modules the answer depends on the lowering. -/
theorem classify_congr {t : SupportTable} {op : Operator} (h : t.frozenOnly.contains op.kind = false)
    (lowering lowering' : LoweringMode) : t.classify op lowering = t.classify op lowering' := by
  simp only [classify, h, Bool.and_false]

/-- If the policy excludes every operator that needs frozen modules, the lowering makes no
difference to the partition. -/
theorem partition_eq_of_frozenOnly {t : SupportTable} (hfallback : s'.fallback = s.fallback)
    (h : ∀ op ∈ g.operators, t.frozenOnly.contains op.kind = true → s.fallback.Excludes op) :
    partition t.toOracle g s' = partition t.toOracle g s := by
  refine partition_congr hfallback fun op hop => verdict_congr ?_
  cases hkind : t.frozenOnly.contains op.kind with
  | true => exact Or.inl (h op hop hkind)
  | false => exact Or.inr (classify_congr hkind _ _)

end SupportTable

end HybridCompile
