import HybridCompile.Proofs.Partition.Regions
import Mathlib.Data.Nat.PSub

/-!
# HybridCompile — what the check of a plan decides

The check walks over the regions with one counter for all operators and remembers the last target.
On any list of regions, however it came about, that walk decides what is said of the list as a
whole: that the operators of all regions together are counted from zero up to the number that the
plan gives, and that no two neighbours have one target.

* `Plan.WellFormed` — a plan as it should be.
* `Region.GoesOn` — the same from any point of the walk.
* `checkRegions_eq_ok_iff` — the walk.
* `PlanFault.text?` — the text of a fault where there is no number below zero.
* `Plan.check_decides` — which plans pass, and how the others fail.
-/

namespace HybridCompile

/-- The regions are numbered on, and together they go through all operators in order. No region is
empty, each names its operators, and neighbours have different targets. -/
structure Plan.WellFormed (p : Plan) : Prop where
  regions_ne_nil : p.regions ≠ []
  indices_eq : p.regions.map Region.index = List.range p.regions.length
  operators_ne_nil : ∀ r ∈ p.regions, r.operators ≠ []
  names_length : ∀ r ∈ p.regions, r.operatorNames.length = r.operators.length
  operators_eq : p.regions.flatMap Region.operators = List.range p.operatorCount
  alternates : p.regions.IsChain fun a b => a.target ≠ b.target

/-- Regions that go on from a point of the walk: the next index is `index`, the next operator is
`place`, and the region before has the target `previous?`. They cover the operators up to `stop`. -/
structure Region.GoesOn (index place : Nat) (previous? : Option Target) (regions : List Region)
    (stop : Nat) : Prop where
  indices_eq : regions.map Region.index = List.range' index regions.length
  operators_ne_nil : ∀ r ∈ regions, r.operators ≠ []
  names_length : ∀ r ∈ regions, r.operatorNames.length = r.operators.length
  le : place ≤ stop
  operators_eq : regions.flatMap Region.operators = List.range' place (stop - place)
  differs : ∀ r ∈ regions.head?, previous? ≠ some r.target
  alternates : regions.IsChain fun a b => a.target ≠ b.target

section Walk

variable {index place stop covered region : Nat} {previous? : Option Target} {r : Region}
  {rest regions : List Region} {ops : List Nat} {target : Target}

/-! ## The operators of one region -/

/-- The inner walk gets through the operators of a region exactly if they are counted on from
`place`. Induction on the operators, over all places. -/
theorem checkOperators_eq_ok_iff :
    Plan.checkOperators region place ops = .ok stop ↔
      ops = List.range' place ops.length ∧ stop = place + ops.length := by
  induction ops generalizing place with
  | nil =>
    rw [Plan.checkOperators, Except.ok.injEq]
    simp [eq_comm]
  | cons op rest ih =>
    rw [Plan.checkOperators, List.length_cons, List.range'_succ, List.cons.injEq]
    by_cases hop : op = place
    · rw [if_neg (not_not.mpr hop), ih]
      simp only [hop, true_and, and_congr_right_iff]
      intro _
      omega
    · rw [if_pos hop]
      simp [hop]

/-- Whatever stops the inner walk, it is not a target. Induction on the operators. -/
theorem checkOperators_ne_sameTarget : Plan.checkOperators region place ops ≠
    .error (.sameTarget index target) := by
  induction ops generalizing place with
  | nil => simp [Plan.checkOperators]
  | cons op rest ih =>
    rw [Plan.checkOperators]
    split
    · simp
    · exact ih

/-! ## The regions -/

/-- What a region has to be for the walk to get past it, and what is asked of the regions after it.
This is `Region.GoesOn` in the words of one step, as `checkRegions_cons_eq_ok_iff` is of the walk.
-/
theorem goesOn_cons_iff :
    Region.GoesOn index place previous? (r :: rest) stop ↔
      r.index = index ∧ r.operators ≠ [] ∧ r.operatorNames.length = r.operators.length ∧
        r.operators = List.range' place r.operators.length ∧ previous? ≠ some r.target ∧
        Region.GoesOn (index + 1) (place + r.operators.length) (some r.target) rest stop := by
  constructor
  · rintro ⟨hindices, hoperators, hnames, hle, hall, hdiffers, halternates⟩
    obtain ⟨hne, hoperators⟩ := List.forall_mem_cons.mp hoperators
    obtain ⟨hname, hnames⟩ := List.forall_mem_cons.mp hnames
    rw [List.map_cons, List.length_cons, List.range'_succ, List.cons.injEq] at hindices
    -- the stretch that all regions cover is cut where the first one ends
    rw [List.flatMap_cons, eq_comm, List.range'_eq_append_iff] at hall
    obtain ⟨count, hcount, hfirst, hothers⟩ := hall
    have hlength : r.operators.length = count := by rw [hfirst, List.length_range']
    rw [List.isChain_cons] at halternates
    refine ⟨hindices.1, hne, hname, by rwa [hlength], hdiffers r rfl, hindices.2, hoperators,
      hnames, by omega, ?_, ?_, halternates.2⟩
    · rw [hothers, hlength, Nat.mul_one, Nat.sub_sub]
    · intro next hnext hsame
      exact halternates.1 next hnext (Option.some.inj hsame)
  · rintro ⟨hindex, hne, hname, hfirst, hdiffers, hrest⟩
    refine ⟨?_, List.forall_mem_cons.mpr ⟨hne, hrest.operators_ne_nil⟩,
      List.forall_mem_cons.mpr ⟨hname, hrest.names_length⟩, by have := hrest.le; omega, ?_, ?_, ?_⟩
    · rw [List.map_cons, List.length_cons, List.range'_succ, hindex, hrest.indices_eq]
    · have hle := hrest.le
      have hcount : stop - place =
          r.operators.length + (stop - (place + r.operators.length)) := by omega
      rw [List.flatMap_cons, hrest.operators_eq, hcount, ← List.range'_append_1, ← hfirst]
    · rintro first ⟨⟩
      exact hdiffers
    · refine List.isChain_cons.mpr ⟨fun next hnext hsame => ?_, hrest.alternates⟩
      exact hrest.differs next hnext (congrArg some hsame)

/-- The walk ends well exactly when the regions go on from where it stands. The induction is on the
regions; the index, the place and the last target go along. -/
theorem checkRegions_eq_ok_iff :
    Plan.checkRegions index place previous? regions = .ok stop ↔
      Region.GoesOn index place previous? regions stop := by
  induction regions generalizing index place previous? with
  | nil =>
    rw [Plan.checkRegions, Except.ok.injEq]
    constructor
    · rintro rfl
      exact ⟨rfl, by simp, by simp, Nat.le_refl _, by simp, by simp, List.IsChain.nil⟩
    · intro h
      have hnone : List.range' place (stop - place) = [] := h.operators_eq.symm
      have hle := h.le
      rw [List.range'_eq_nil_iff] at hnone
      omega
  | cons r rest ih =>
    rw [checkRegions_cons_eq_ok_iff, goesOn_cons_iff]
    simp only [checkOperators_eq_ok_iff, ih]
    constructor
    · rintro ⟨hindex, hne, hname, _, ⟨hfirst, rfl⟩, hdiffers, hrest⟩
      exact ⟨hindex, hne, hname, hfirst, hdiffers, hrest⟩
    · rintro ⟨hindex, hne, hname, hfirst, hdiffers, hrest⟩
      exact ⟨hindex, hne, hname, _, ⟨hfirst, rfl⟩, hdiffers, hrest⟩

/-- Where the walk stops at two neighbours with one target, the one before has that target too: it
is the last of the regions so far, or the region that the walk came from. -/
theorem target_before_of_checkRegions
    (h : Plan.checkRegions index place previous? regions = .error (.sameTarget region target)) :
    ∃ k, region = index + k ∧
      (previous? :: regions.map fun r => some r.target)[k]? = some (some target) := by
  induction regions generalizing index place previous? with
  | nil => cases h
  | cons r rest ih =>
    rw [Plan.checkRegions] at h
    simp only [guard_eq_error_iff, bind_eq_error_iff] at h
    rcases h with ⟨_, h⟩ | ⟨hindex, ⟨_, h⟩ | ⟨_, ⟨_, h⟩ | ⟨_, h | ⟨place', _, h⟩⟩⟩⟩
    · cases h
    · cases h
    · cases h
    · exact absurd h checkOperators_ne_sameTarget
    · rcases h with ⟨hprevious, h⟩ | ⟨_, h⟩
      · cases h
        exact ⟨0, not_not.mp hindex, congrArg some hprevious⟩
      · obtain ⟨k, hk, hbefore⟩ := ih h
        exact ⟨k + 1, by omega, hbefore⟩

end Walk

/-! ## Plans -/

/-- The text of a fault, where a difference that would be below zero has no value. -/
def PlanFault.text? : PlanFault → Option String
  | .sameTarget index target => do
    let before ← Nat.ppred index
    return s!"regions {before} and {index} are adjacent with the same target {target.label}"
  | fault => some fault.text

theorem PlanFault.text?_eq_some {fault : PlanFault}
    (h : ∀ index target, fault = .sameTarget index target → 0 < index) :
    fault.text? = some fault.text := by
  cases fault with
  | sameTarget index target =>
    obtain ⟨before, rfl⟩ := Nat.exists_eq_succ_of_ne_zero (Nat.ne_of_gt (h index target rfl))
    rfl
  | _ => rfl

namespace Plan

variable {p : Plan} {fault : PlanFault}

/-- Regions that go on from the very beginning are those of a well-formed plan. -/
theorem goesOn_iff_wellFormed (hne : p.regions ≠ []) :
    Region.GoesOn 0 0 none p.regions p.operatorCount ↔ p.WellFormed := by
  constructor
  · intro h
    refine ⟨hne, ?_, h.operators_ne_nil, h.names_length, ?_, h.alternates⟩
    · rw [h.indices_eq, List.range_eq_range']
    · rw [h.operators_eq, List.range_eq_range', Nat.sub_zero]
  · intro h
    refine ⟨?_, h.operators_ne_nil, h.names_length, Nat.zero_le _, ?_, by simp, h.alternates⟩
    · rw [h.indices_eq, List.range_eq_range']
    · rw [h.operators_eq, List.range_eq_range', Nat.sub_zero]

/-- The walk finds no fault exactly if the regions go on from the beginning up to the number that
the plan gives. -/
theorem fault?_eq_none_iff :
    p.fault? = none ↔ Region.GoesOn 0 0 none p.regions p.operatorCount := by
  rw [← checkRegions_eq_ok_iff, fault?]
  cases checkRegions 0 0 none p.regions with
  | error fault => simp
  | ok covered => simp

/-- Of two neighbours with one target the second is never the first region, by
`target_before_of_checkRegions`; so the number in the message is not below zero. -/
theorem index_pos_of_fault? {index : Nat} {target : Target}
    (h : p.fault? = some (.sameTarget index target)) : 0 < index := by
  rw [fault?] at h
  cases hwalk : checkRegions 0 0 none p.regions with
  | ok covered =>
    simp only [hwalk] at h
    split at h <;> simp at h
  | error fault =>
    rw [hwalk] at h
    cases h
    obtain ⟨k, rfl, hbefore⟩ := target_before_of_checkRegions hwalk
    -- nothing stands before the first region
    cases k with
    | zero => cases hbefore
    | succ k => omega

/-- The three ways in which a check ends: the plan has no region, it is well-formed, or it has a
fault. -/
theorem check_cases (p : Plan) :
    p.regions = [] ∧ p.check = .error .emptyGraph ∨
      p.regions ≠ [] ∧ p.WellFormed ∧ p.check = .ok () ∨
      p.regions ≠ [] ∧ ¬p.WellFormed ∧ ∃ fault, p.fault? = some fault ∧
        p.check = .error (.invalidPlan fault) := by
  by_cases hne : p.regions = []
  · exact Or.inl ⟨hne, by rw [check, hne]; rfl⟩
  · have hsome : p.regions.isEmpty = false := List.isEmpty_eq_false_iff.mpr hne
    have hwell := fault?_eq_none_iff.trans (goesOn_iff_wellFormed hne)
    rw [← hwell, check, hsome]
    cases hfault : p.fault? with
    | none => exact Or.inr (Or.inl ⟨hne, rfl, rfl⟩)
    | some fault => exact Or.inr (Or.inr ⟨hne, by simp, fault, rfl, rfl⟩)

/-- For every plan: it passes exactly when it is as it should be, it counts as empty exactly when it
has no region, and it is an invalid plan in every other case. No number below zero comes up on the
way to the message. -/
theorem check_decides (p : Plan) :
    (p.check = .ok () ↔ p.WellFormed) ∧
      (p.check = .error .emptyGraph ↔ p.regions = []) ∧
      ((∃ fault, p.check = .error (.invalidPlan fault)) ↔ p.regions ≠ [] ∧ ¬p.WellFormed) ∧
      ∀ fault, p.check = .error (.invalidPlan fault) → fault.text? = some fault.text := by
  rcases p.check_cases with
    ⟨hnil, hcheck⟩ | ⟨hne, hwell, hcheck⟩ | ⟨hne, hnot, fault, hfault, hcheck⟩
  · have hnot : ¬p.WellFormed := fun h => h.regions_ne_nil hnil
    rw [hcheck]
    simp [hnil, hnot]
  · rw [hcheck]
    simp [hne, hwell]
  · rw [hcheck]
    refine ⟨by simp [hnot], by simp [hne], by simp [hne, hnot], ?_⟩
    rintro _ ⟨⟩
    refine PlanFault.text?_eq_some ?_
    rintro index target rfl
    exact index_pos_of_fault? hfault

/-- Two regions with one target, where the message names the index before the second. -/
def twins : Plan :=
  { graphName := "twins",
    regions := [
      ⟨0, .accelerator, [0, 1], ["a", "b"], [], [], []⟩,
      ⟨1, .accelerator, [2], ["c"], [], [], []⟩],
    operatorCount := 3 }

theorem check_decides_twins :
    twins.check = .error (.invalidPlan (.sameTarget 1 .accelerator)) ∧ ¬twins.WellFormed ∧
      (PlanFault.sameTarget 1 .accelerator).text? =
        some "regions 0 and 1 are adjacent with the same target Accelerator" := by
  have hcheck : twins.check = .error (.invalidPlan (.sameTarget 1 .accelerator)) := by decide
  obtain ⟨-, -, hinvalid, htext⟩ := check_decides twins
  exact ⟨hcheck, (hinvalid.mp ⟨_, hcheck⟩).2, htext _ hcheck⟩

end Plan

end HybridCompile
