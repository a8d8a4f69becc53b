import HybridCompile.Proofs.Dataflow.Boundary
import HybridCompile.Proofs.Partition.Placement
import Mathlib.Data.List.Flatten

/-!
# HybridCompile — what regions hand to one another

The boundary of a region is two lists of names, computed from a table that knows only the last
reader of a tensor. Read off a whole plan, the lists are the flow of tensors between regions: one
region hands a tensor to a later one exactly when it writes what the later one reads.

* `ByFirstUse` — names listed once, in the order in which they first occur.
* `Region.Crosses` — what the two lists of a region say, by the operators that it covers.
* `Plan.Exchanges` — what the lists of all regions say together.
-/

namespace HybridCompile

/-! ## Order of first use -/

/-- Each name is listed once, and those listed stand in the order in which they first occur. -/
def ByFirstUse (occurrences listed : List String) : Prop :=
  listed.Pairwise fun a b => occurrences.idxOf a < occurrences.idxOf b

/-- Dropping repetitions keeps the first of each name. The induction is on the occurrences; `p`
takes up what was seen before them, since `List.eraseDups` filters it out of the rest. -/
theorem byFirstUse_eraseDups_filter (occurrences : List String) (p : String → Bool) :
    ByFirstUse occurrences (occurrences.filter p).eraseDups := by
  induction occurrences generalizing p with
  | nil => exact List.Pairwise.nil
  | cons x rest ih =>
    have hshift : ∀ q : String → Bool, q x = false →
        ByFirstUse (x :: rest) (rest.filter q).eraseDups := by
      intro q hq
      refine List.Pairwise.imp_of_mem ?_ (ih q)
      intro a b ha hb hlt
      have hne : ∀ c, c ∈ (rest.filter q).eraseDups → x ≠ c := by
        rintro c hc rfl
        rw [List.mem_eraseDups, List.mem_filter, hq] at hc
        exact absurd hc.2 (by simp)
      rw [List.idxOf_cons_ne _ (hne a ha), List.idxOf_cons_ne _ (hne b hb)]
      exact Nat.succ_lt_succ hlt
    by_cases hx : p x = true
    · rw [List.filter_cons_of_pos hx, List.eraseDups_cons, List.filter_filter]
      refine List.pairwise_cons.mpr ⟨fun b hb => ?_, hshift _ (by simp)⟩
      rw [List.mem_eraseDups, List.mem_filter] at hb
      have hne : x ≠ b := by
        rintro rfl
        simp at hb
      rw [List.idxOf_cons_self, List.idxOf_cons_ne _ hne]
      exact Nat.succ_pos _
    · rw [List.filter_cons_of_neg hx]
      exact hshift p (by simpa using hx)

theorem ByFirstUse.of_sublist {occurrences listed : List String} (hnodup : occurrences.Nodup)
    (h : listed.Sublist occurrences) : ByFirstUse occurrences listed := by
  refine List.Pairwise.sublist h (List.pairwise_iff_getElem.mpr ?_)
  intro i j hi hj hlt
  rw [hnodup.idxOf_getElem i hi, hnodup.idxOf_getElem j hj]
  exact hlt

/-! ## One region -/

/-- An operator of the region names the tensor on the given side. -/
def Region.Mentions (r : Region) (g : ValidGraph) (side : Operator → List String)
    (tensor : String) : Prop :=
  ∃ p ∈ r.operators, HybridCompile.Mentions side g.operators p tensor

/-- An operator of the region reads the tensor. -/
abbrev Region.Reads (r : Region) (g : ValidGraph) : String → Prop :=
  r.Mentions g Operator.inputs

/-- An operator of the region writes the tensor. -/
abbrev Region.Writes (r : Region) (g : ValidGraph) : String → Prop :=
  r.Mentions g Operator.outputs

/-- All that the region's operators name on one side, one operator after another. -/
def Region.occurrences (r : Region) (g : ValidGraph) (side : Operator → List String) :
    List String :=
  r.operators.flatMap fun p => (g.operators[p]?.map side).getD []

/-- A region covers the operators from `start` up to `stop`, and its two lists name what crosses its
boundary. -/
structure Region.Crosses (r : Region) (g : ValidGraph) (start stop : Nat) : Prop where
  lt : start < stop
  operators_eq : r.operators = List.range' start (stop - start)
  mem_inputs_iff : ∀ t, t ∈ r.inputs ↔ r.Reads g t ∧ ¬r.Writes g t
  inputs_order : ByFirstUse (r.occurrences g Operator.inputs) r.inputs
  mem_outputs_iff : ∀ t, t ∈ r.outputs ↔
    r.Writes g t ∧ (t ∈ g.outputs ∨ ∃ p, stop ≤ p ∧ HybridCompile.Reads g.operators p t)
  outputs_order : ByFirstUse (r.occurrences g Operator.outputs) r.outputs

section Region

variable {g : ValidGraph} {run : Run} {index : Nat} {side : Operator → List String} {t : String}

/-- What the region of a run mentions, its operators between `start` and `stop` mention. -/
theorem mentions_toRegion :
    (run.toRegion g index).Mentions g side t ↔
      ∃ p, run.start ≤ p ∧ p < run.stop ∧ Mentions side g.operators p t := by
  unfold Region.Mentions Run.toRegion
  simp only [Run.mem_range'_iff, Run.Covers, and_assoc]

theorem occurrences_toRegion (h : run.start + run.length ≤ g.operators.length) :
    (run.toRegion g index).occurrences g side =
      ((g.operators.drop run.start).take run.length).flatMap side := by
  have hstretch := map_some_take_drop h
  unfold Region.occurrences Run.toRegion
  rw [← List.flatMap_map (fun i => g.operators[i]?) fun op? => (op?.map side).getD [], ← hstretch,
    List.flatMap_map]
  rfl

/-- The region of a run crosses its boundary as `Region.Crosses` says. Membership is
`mem_boundary_inputs` and `mem_boundary_outputs`, and the order is that in which `boundary` lists
what it finds. -/
theorem crosses_toRegion (h : g.Sound) (hlt : run.start < run.stop)
    (hle : run.stop ≤ g.operators.length) :
    (run.toRegion g index).Crosses g run.start run.stop := by
  have hlength : run.start + run.length ≤ g.operators.length := by
    rwa [Run.start_add_length hlt.le]
  refine ⟨hlt, rfl, fun t => ?_, ?_, fun t => ?_, ?_⟩
  · rw [Region.Reads, Region.Writes, mentions_toRegion, mentions_toRegion]
    exact mem_boundary_inputs h
  · rw [occurrences_toRegion hlength]
    exact byFirstUse_eraseDups_filter _ _
  · rw [Region.Writes, mentions_toRegion]
    exact mem_boundary_outputs h hlt
  · -- no tensor is written twice, so what is kept is listed as it is written
    rw [occurrences_toRegion hlength]
    refine ByFirstUse.of_sublist ?_ List.filter_sublist
    have horigins := (List.nodup_append.mp h.inOrder.origins_nodup).2.1
    refine List.Nodup.sublist ?_ horigins
    exact ((List.take_sublist _ _).trans (List.drop_sublist _ _)).flatMap _

end Region

/-! ## All regions

`i` and `j` are places in the list of regions. -/

/-- The lists of all regions are the flow of tensors between them. -/
structure Plan.Exchanges (plan : Plan) (g : ValidGraph) : Prop where
  handed_on_iff : ∀ (i j : Nat) (a b : Region), i < j → plan.regions[i]? = some a →
    plan.regions[j]? = some b → ∀ t, (t ∈ a.outputs ∧ t ∈ b.inputs) ↔ (a.Writes g t ∧ b.Reads g t)
  outputs_disjoint : ∀ (i j : Nat) (a b : Region), i ≠ j → plan.regions[i]? = some a →
    plan.regions[j]? = some b → ∀ t ∈ a.outputs, t ∉ b.outputs
  outputs_used : ∀ (i : Nat) (a : Region), plan.regions[i]? = some a → ∀ t ∈ a.outputs,
    t ∈ g.outputs ∨ ∃ j, i < j ∧ ∃ b, plan.regions[j]? = some b ∧ b.Reads g t
  inputs_made : ∀ (j : Nat) (b : Region), plan.regions[j]? = some b → ∀ t ∈ b.inputs,
    t ∈ g.inputs ∨ ∃! i, i < j ∧ ∃ a, plan.regions[i]? = some a ∧ t ∈ a.outputs

namespace Run

variable {g : ValidGraph} {a b i j index place : Nat} {r r' : Run} {runs : List Run}

/-- Region `i` is made of run `i`, and numbered so. Induction on the runs. -/
theorem getElem?_toRegions (i : Nat) :
    (toRegions g index runs)[i]? = runs[i]?.map fun r => r.toRegion g (index + i) := by
  induction runs generalizing index i with
  | nil => rfl
  | cons first rest ih =>
    cases i with
    | zero => rfl
    | succ i =>
      rw [toRegions, List.getElem?_cons_succ, List.getElem?_cons_succ, ih, Nat.add_right_comm,
        Nat.add_assoc]

/-- A run earlier in the list ends before a later one begins. Induction on the tiling. -/
theorem Tiles.stop_le_start (h : Tiles a runs b) (hlt : i < j) (hi : runs[i]? = some r)
    (hj : runs[j]? = some r') : r.stop ≤ r'.start := by
  induction h generalizing i j with
  | nil => simp at hi
  | cons _ _ hrest ih =>
    obtain ⟨j, rfl⟩ := Nat.exists_eq_succ_of_ne_zero (Nat.ne_of_gt (Nat.zero_lt_of_lt hlt))
    rw [List.getElem?_cons_succ] at hj
    cases i with
    | zero =>
      cases hi
      exact (hrest.bounds (List.mem_of_getElem? hj)).1
    | succ i => exact ih (Nat.lt_of_succ_lt_succ hlt) hi hj

theorem Tiles.le_of_covers (h : Tiles a runs b) (hi : runs[i]? = some r) (hj : runs[j]? = some r')
    {place' : Nat} (hc : r.Covers place) (hc' : r'.Covers place') (hle : place ≤ place') :
    i ≤ j := by
  by_contra hgt
  have hapart := h.stop_le_start (Nat.lt_of_not_le hgt) hj hi
  have hstart := hc.1
  have hstop := hc'.2
  omega

theorem Tiles.index_eq_of_covers (h : Tiles a runs b) (hi : runs[i]? = some r)
    (hj : runs[j]? = some r') (hc : r.Covers place) (hc' : r'.Covers place) : i = j :=
  Nat.le_antisymm (h.le_of_covers hi hj hc hc' (Nat.le_refl _))
    (h.le_of_covers hj hi hc' hc (Nat.le_refl _))

theorem Tiles.lt_of_covers (h : Tiles a runs b) (hi : runs[i]? = some r) (hj : runs[j]? = some r')
    {place' : Nat} (hc : r.Covers place) (hc' : r'.Covers place') (hle : place ≤ place')
    (hne : r ≠ r') : i < j := by
  refine Nat.lt_of_le_of_ne (h.le_of_covers hi hj hc hc' hle) ?_
  rintro rfl
  exact hne (Option.some.inj (hi.symm.trans hj))

end Run

section Plan

variable {g : ValidGraph} {i j : Nat} {r r' : Run} {runs : List Run} {t : String}

/-- What one run writes and a later one reads crosses both boundaries, and nothing else does. A
tensor has one writer, so that it cannot be written again in between. -/
theorem mem_both_boundaries_iff (h : g.Sound) (htiles : Run.Tiles 0 runs g.operators.length)
    (hlt : i < j) (hi : runs[i]? = some r) (hj : runs[j]? = some r') :
    (t ∈ (boundary g r.start r.stop).2 ∧ t ∈ (boundary g r'.start r'.stop).1) ↔
      (∃ p, r.start ≤ p ∧ p < r.stop ∧ Writes g.operators p t) ∧
        ∃ p, r'.start ≤ p ∧ p < r'.stop ∧ Reads g.operators p t := by
  have hbounds := htiles.bounds (List.mem_of_getElem? hi)
  have happart := htiles.stop_le_start hlt hi hj
  rw [mem_boundary_outputs h hbounds.2.1, mem_boundary_inputs h]
  constructor
  · rintro ⟨⟨hwrites, _⟩, hreads, _⟩
    exact ⟨hwrites, hreads⟩
  · rintro ⟨⟨p, hp, hlt, hw⟩, q, hq, hlt', hread⟩
    have hneeded : NeededAt g r.stop t := Or.inr ⟨q, by omega, hread⟩
    refine ⟨⟨⟨p, hp, hlt, hw⟩, hneeded⟩, ⟨q, hq, hlt', hread⟩, ?_⟩
    -- the tensor has one writer, and that stands in the earlier run
    rintro ⟨p', hp', _, hw'⟩
    have := h.inOrder.writer_eq hw hw'
    omega

theorem exists_writer (h : g.Sound) (hlt : r.start < r.stop)
    (ht : t ∈ (boundary g r.start r.stop).2) : ∃ p, r.Covers p ∧ Writes g.operators p t := by
  obtain ⟨⟨p, hp, hstop, hw⟩, _⟩ := (mem_boundary_outputs h hlt).mp ht
  exact ⟨p, ⟨hp, hstop⟩, hw⟩

/-- No tensor is handed on by two runs, as its writer stands in one of them. -/
theorem index_eq_of_mem_outputs (h : g.Sound) (htiles : Run.Tiles 0 runs g.operators.length)
    (hi : runs[i]? = some r) (hj : runs[j]? = some r') (ht : t ∈ (boundary g r.start r.stop).2)
    (ht' : t ∈ (boundary g r'.start r'.stop).2) : i = j := by
  have hlt := (htiles.bounds (List.mem_of_getElem? hi)).2.1
  have hlt' := (htiles.bounds (List.mem_of_getElem? hj)).2.1
  obtain ⟨p, hp, hw⟩ := exists_writer h hlt ht
  obtain ⟨p', hp', hw'⟩ := exists_writer h hlt' ht'
  obtain rfl := h.inOrder.writer_eq hw hw'
  exact htiles.index_eq_of_covers hi hj hp hp'

/-- What a run hands on is handed back, or somebody in a later run reads it. The runs tile the
graph, so the reader is in one of them (`Tiles.exists_covers`), and being past the end it is in a
later one (`Tiles.lt_of_covers`). -/
theorem exists_reader (h : g.Sound) (htiles : Run.Tiles 0 runs g.operators.length)
    (hi : runs[i]? = some r) (ht : t ∈ (boundary g r.start r.stop).2) :
    t ∈ g.outputs ∨ ∃ j r', i < j ∧ runs[j]? = some r' ∧
      ∃ q, r'.start ≤ q ∧ q < r'.stop ∧ Reads g.operators q t := by
  have hlt := (htiles.bounds (List.mem_of_getElem? hi)).2.1
  obtain ⟨_, hout | ⟨q, hq, hread⟩⟩ := (mem_boundary_outputs h hlt).mp ht
  · exact Or.inl hout
  · obtain ⟨r', hr', hcovers⟩ := htiles.exists_covers (Nat.zero_le q) hread.lt
    obtain ⟨j, hj⟩ := List.mem_iff_getElem?.mp hr'
    have hfirst : r.Covers r.start := ⟨Nat.le_refl _, hlt⟩
    have hle : r.start ≤ q := by omega
    -- the reader stands past the end of the run
    have hne : r ≠ r' := by
      rintro rfl
      exact Nat.not_lt.mpr hq hcovers.2
    have hij := htiles.lt_of_covers hi hj hfirst hcovers hle hne
    exact Or.inr ⟨j, r', hij, hj, q, hcovers.1, hcovers.2, hread⟩

/-- What a run needs from outside is a graph input, or an earlier run hands it on. As for
`exists_reader`, with the operator that writes the tensor in place of the reader. -/
theorem exists_maker (h : g.Sound) (htiles : Run.Tiles 0 runs g.operators.length)
    (hj : runs[j]? = some r') (ht : t ∈ (boundary g r'.start r'.stop).1) :
    t ∈ g.inputs ∨ ∃ i r, i < j ∧ runs[i]? = some r ∧ t ∈ (boundary g r.start r.stop).2 := by
  obtain ⟨q, hq, hlt, hread⟩ := ((mem_boundary_inputs h).mp ht).1
  rcases thereAt_of_mem_boundary_inputs h ht with hin | ⟨p, hp, hw⟩
  · exact Or.inl hin
  · obtain ⟨r, hr, hcovers⟩ := htiles.exists_covers (Nat.zero_le p) hw.lt
    obtain ⟨i, hi⟩ := List.mem_iff_getElem?.mp hr
    have hle : p ≤ q := by omega
    have hne : r ≠ r' := by
      rintro rfl
      exact Nat.not_le.mpr hp hcovers.1
    have hij := htiles.lt_of_covers hi hj hcovers ⟨hq, hlt⟩ hle hne
    have hcrosses := (mem_both_boundaries_iff h htiles hij hi hj).mpr
      ⟨⟨p, hcovers.1, hcovers.2, hw⟩, q, hq, hlt, hread⟩
    exact Or.inr ⟨i, r, hij, hi, hcrosses.1⟩

/-- Region `i` of the plan of some runs is the region of run `i`. -/
theorem getElem?_ofRuns {a : Region} :
    (Plan.ofRuns g runs).regions[i]? = some a ↔ ∃ r, runs[i]? = some r ∧ r.toRegion g i = a := by
  rw [Plan.ofRuns, Run.getElem?_toRegions, Nat.zero_add, Option.map_eq_some_iff]

/-- The plan of a tiling exchanges tensors as `Plan.Exchanges` says: each field is one of the lemmas
above, moved from runs to regions by `getElem?_ofRuns`. -/
theorem exchanges_ofRuns (h : g.Sound) (htiles : Run.Tiles 0 runs g.operators.length) :
    (Plan.ofRuns g runs).Exchanges g where
  handed_on_iff i j a b hlt ha hb t := by
    obtain ⟨r, hi, rfl⟩ := getElem?_ofRuns.mp ha
    obtain ⟨r', hj, rfl⟩ := getElem?_ofRuns.mp hb
    rw [Region.Writes, Region.Reads, mentions_toRegion, mentions_toRegion]
    exact mem_both_boundaries_iff h htiles hlt hi hj
  outputs_disjoint i j a b hne ha hb t hta htb := by
    obtain ⟨r, hi, rfl⟩ := getElem?_ofRuns.mp ha
    obtain ⟨r', hj, rfl⟩ := getElem?_ofRuns.mp hb
    exact hne (index_eq_of_mem_outputs h htiles hi hj hta htb)
  outputs_used i a ha t ht := by
    obtain ⟨r, hi, rfl⟩ := getElem?_ofRuns.mp ha
    rcases exists_reader h htiles hi ht with hout | ⟨j, r', hij, hj, hread⟩
    · exact Or.inl hout
    · exact Or.inr ⟨j, hij, _, getElem?_ofRuns.mpr ⟨r', hj, rfl⟩, mentions_toRegion.mpr hread⟩
  inputs_made j b hb t ht := by
    obtain ⟨r', hj, rfl⟩ := getElem?_ofRuns.mp hb
    rcases exists_maker h htiles hj ht with hin | ⟨i, r, hij, hi, hout⟩
    · exact Or.inl hin
    · refine Or.inr ⟨i, ⟨hij, _, getElem?_ofRuns.mpr ⟨r, hi, rfl⟩, hout⟩, ?_⟩
      rintro k ⟨_, a, ha, hta⟩
      obtain ⟨r'', hk, rfl⟩ := getElem?_ofRuns.mp ha
      exact index_eq_of_mem_outputs h htiles hk hi hta hout

end Plan

/-! ## Every plan -/

/-- For every plan of a validated graph: the two lists of each region name, once and in order, what
crosses its boundary, and together they are the flow of tensors between regions. -/
theorem partition_boundaries {raw : Graph} {g : ValidGraph} {oracle : Oracle} {s : Settings}
    {plan : Plan} (h : raw.validate = .ok g) (hplan : partition oracle g s = .ok plan) :
    (∀ r ∈ plan.regions, ∃ start stop, r.Crosses g start stop) ∧ plan.Exchanges g := by
  have hsound := Graph.sound_of_validate h
  obtain ⟨runs, rfl, htiles, _⟩ := exists_runs_of_partition hsound.operators_ne_nil hplan
  refine ⟨fun region hregion => ?_, exchanges_ofRuns hsound htiles⟩
  obtain ⟨r, hr, k, rfl⟩ := Run.mem_toRegions hregion
  obtain ⟨_, hlt, hle⟩ := htiles.bounds hr
  exact ⟨r.start, r.stop, crosses_toRegion hsound hlt hle⟩

-- `t0` and `t1` cross the first boundary; `x` is handed back without crossing one as an output.
/-- Tensor `t0` is handed from the first region to the third, past the second; the graph input `x`
is handed on by none. -/
theorem partition_boundaries_skipping :
    skippingPlan.regions.map (fun r => (r.inputs, r.outputs)) =
        [(["x"], ["t0", "t1"]), (["t1"], ["t2"]), (["t2", "t0"], ["t4"]), (["t4"], ["y"])] ∧
      skipping.validate = .ok skippingValid ∧
      partition SupportTable.acceptAll.toOracle skippingValid skippingSettings = .ok skippingPlan ∧
      (∀ r ∈ skippingPlan.regions, ∃ start stop, r.Crosses skippingValid start stop) ∧
      skippingPlan.Exchanges skippingValid :=
  have hvalid : skipping.validate = .ok skippingValid := by decide
  have hplan : partition SupportTable.acceptAll.toOracle skippingValid skippingSettings =
    .ok skippingPlan := by decide
  ⟨by decide, hvalid, hplan, partition_boundaries hvalid hplan⟩

end HybridCompile
