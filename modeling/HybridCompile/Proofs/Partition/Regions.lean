import HybridCompile.Proofs.Outcome
import HybridCompile.Proofs.Partition.Runs

/-!
# HybridCompile — the regions of runs

A plan is made from runs that follow one another over all operators and whose neighbours differ, so
the check that ends a partition never finds anything wrong with it.

* `runs_eq_ok` — the runs of a graph are such runs, whether or not operators may fall back.
* `Plan.ofRuns`, `check_ofRuns` — their plan, which passes its check.
* `partition_eq_map` — a partition is the plan of the runs, or their error.
-/

namespace HybridCompile

/-- A stretch of a list, read item by item. Induction on the length of the stretch, over all places
to begin with. -/
theorem map_some_take_drop {α : Type} {xs : List α} {start count : Nat}
    (h : start + count ≤ xs.length) :
    ((xs.drop start).take count).map some = (List.range' start count).map fun i => xs[i]? := by
  induction count generalizing start with
  | zero => simp
  | succ count ih =>
    have hlt : start < xs.length := by omega
    rw [List.drop_eq_getElem_cons hlt, List.take_succ_cons, List.map_cons, List.range'_succ,
      List.map_cons, List.getElem?_eq_getElem hlt, ih (by omega)]

namespace Run

variable {g : ValidGraph} {a b index : Nat} {runs : List Run}

theorem mem_toRegions {region : Region} (h : region ∈ toRegions g index runs) :
    ∃ r ∈ runs, ∃ k, region = r.toRegion g k := by
  induction runs generalizing index with
  | nil => cases h
  | cons r rest ih =>
    rcases List.mem_cons.mp h with rfl | h
    · exact ⟨r, List.mem_cons_self, index, rfl⟩
    · obtain ⟨r', hr', k, hk⟩ := ih h
      exact ⟨r', List.mem_cons_of_mem r hr', k, hk⟩

theorem exists_mem_toRegions {r : Run} (h : r ∈ runs) (g : ValidGraph) (index : Nat) :
    ∃ k, r.toRegion g k ∈ toRegions g index runs := by
  induction runs generalizing index with
  | nil => cases h
  | cons first rest ih =>
    rcases List.mem_cons.mp h with rfl | h
    · exact ⟨index, List.mem_cons_self⟩
    · obtain ⟨k, hk⟩ := ih h (index + 1)
      exact ⟨k, List.mem_cons_of_mem _ hk⟩

theorem length_toRegions : (toRegions g index runs).length = runs.length := by
  induction runs generalizing index with
  | nil => rfl
  | cons r rest ih => rw [toRegions, List.length_cons, List.length_cons, ih]

/-- Regions are numbered on from `index`. Induction on the runs. -/
theorem map_index_toRegions :
    (toRegions g index runs).map Region.index = List.range' index runs.length := by
  induction runs generalizing index with
  | nil => rfl
  | cons r rest ih =>
    rw [toRegions, List.map_cons, ih, List.length_cons, List.range'_succ]
    rfl

theorem map_target_toRegions :
    (toRegions g index runs).map Region.target = runs.map Run.target := by
  induction runs generalizing index with
  | nil => rfl
  | cons r rest ih =>
    rw [toRegions, List.map_cons, ih, List.map_cons]
    rfl

/-- The regions of a tiling go through the operators one after another. Induction on the tiling: the
places of the first run come before those of the rest. -/
theorem Tiles.flatMap_operators (h : Tiles a runs b) :
    (toRegions g index runs).flatMap Region.operators = List.range' a (b - a) := by
  induction h generalizing index with
  | nil => simp [toRegions]
  | @cons _ stop r rest hstart hlt hrest ih =>
    subst hstart
    have hle := hrest.le
    have hlength := start_add_length hlt.le
    have hsplit : stop - r.start = r.length + (stop - r.stop) := by omega
    rw [toRegions, List.flatMap_cons, ih, hsplit, ← List.range'_append_1, hlength]
    rfl

theorem toRegion_operatorNames {r : Run} (hle : r.start ≤ r.stop)
    (h : r.stop ≤ g.operators.length) :
    (r.toRegion g index).operatorNames.map some =
      (r.toRegion g index).operators.map fun i => (g.operators[i]?).map Operator.name := by
  have hlength : r.start + r.length ≤ g.operators.length := by rwa [start_add_length hle]
  have hsegment := map_some_take_drop hlength
  have hnames := congrArg (List.map (Option.map Operator.name)) hsegment
  simpa [toRegion, Function.comp_def] using hnames

end Run

/-! ## The check -/

section Check

variable {g : ValidGraph} {a b index region : Nat} {runs : List Run}

/-- Operators that are counted on pass the inner walk of the check. Induction on their number. -/
theorem checkOperators_range' (place count : Nat) :
    Plan.checkOperators region place (List.range' place count) = .ok (place + count) := by
  induction count generalizing place with
  | zero => rfl
  | succ count ih =>
    rw [List.range'_succ, Plan.checkOperators, if_neg (by simp), ih]
    exact congrArg Except.ok (by omega)

/-- One step of the walk over the regions: what is asked of the first, and that the walk goes on
behind it. Later proofs take this instead of the definition. -/
theorem checkRegions_cons_eq_ok_iff {place covered : Nat} {previous? : Option Target} {r : Region}
    {rest : List Region} :
    Plan.checkRegions index place previous? (r :: rest) = .ok covered ↔
      r.index = index ∧ r.operators ≠ [] ∧ r.operatorNames.length = r.operators.length ∧
        ∃ place', Plan.checkOperators r.index place r.operators = .ok place' ∧
          previous? ≠ some r.target ∧
          Plan.checkRegions (index + 1) place' (some r.target) rest = .ok covered := by
  rw [Plan.checkRegions]
  simp only [guard_eq_ok_iff, bind_eq_ok_iff, ne_eq, not_not, List.isEmpty_iff]

/-- The regions of a tiling whose neighbours differ have nothing wrong with them. Induction on the
tiling; `hprevious` carries along that the first region differs from the one that the walk came
from. -/
theorem checkRegions_toRegions (h : Run.Tiles a runs b) (hle : b ≤ g.operators.length)
    (hne : Run.Alternates runs) {previous? : Option Target}
    (hprevious : ∀ r ∈ runs.head?, previous? ≠ some r.target) :
    Plan.checkRegions index a previous? (Run.toRegions g index runs) = .ok b := by
  induction h generalizing index previous? with
  | nil => rfl
  | @cons start stop r rest hstart hlt hrest ih =>
    subst hstart
    have hstop := hrest.le
    have hcount := Run.start_add_length hlt.le
    have hnext : ∀ next ∈ rest.head?, some r.target ≠ some next.target := by
      intro next hnext hsame
      exact (List.isChain_cons.mp hne).1 next hnext (Option.some.inj hsame)
    refine checkRegions_cons_eq_ok_iff.mpr ⟨rfl, ?_, ?_, r.stop, ?_, hprevious r rfl, ?_⟩
    · show List.range' r.start r.length ≠ []
      rw [ne_eq, List.range'_eq_nil_iff]
      omega
    · show (((g.operators.drop r.start).take r.length).map Operator.name).length =
        (List.range' r.start r.length).length
      simp only [List.length_map, List.length_take, List.length_drop, List.length_range']
      omega
    · rw [← hcount]
      exact checkOperators_range' r.start r.length
    · exact ih hle hne.tail hnext

end Check

/-! ## Partitions -/

section Partition

variable {oracle : Oracle} {g : ValidGraph} {s : Settings} {runs : List Run}

/-- The plan of some runs, their regions numbered from zero. -/
def Plan.ofRuns (g : ValidGraph) (runs : List Run) : Plan :=
  ⟨g.name, Run.toRegions g 0 runs, g.operators.length⟩

/-- The plan of runs that follow one another over all operators, and whose neighbours differ, passes
its check. -/
theorem check_ofRuns (hne : g.operators ≠ []) (h : Run.Tiles 0 runs g.operators.length)
    (halternates : Run.Alternates runs) : (Plan.ofRuns g runs).check = .ok () := by
  have hregions : Plan.checkRegions 0 0 none (Run.toRegions g 0 runs) = .ok g.operators.length :=
    checkRegions_toRegions h (Nat.le_refl _) halternates fun _ _ => by simp
  have hsome : (Run.toRegions g 0 runs).isEmpty = false := by
    obtain ⟨r, hr, _⟩ := h.exists_covers (Nat.le_refl 0) (List.length_pos_iff.mpr hne)
    obtain ⟨_, hmem⟩ := Run.exists_mem_toRegions hr g 0
    exact List.isEmpty_eq_false_iff.mpr (List.ne_nil_of_mem hmem)
  have hfault : (Plan.ofRuns g runs).fault? = none := by
    rw [Plan.fault?, Plan.ofRuns, hregions]
    exact if_pos rfl
  rw [Plan.check, hfault]
  simp [Plan.ofRuns, hsome]

/-- What a plan has to be for its regions to be a division of the operators of a graph. -/
structure Plan.Divides (plan : Plan) (g : ValidGraph) : Prop where
  /-- The regions go through all operators one after another. -/
  operators_eq : plan.regions.flatMap Region.operators = List.range g.operators.length
  /-- They are numbered on. -/
  indices_eq : plan.regions.map Region.index = List.range plan.regions.length
  operators_ne_nil : ∀ r ∈ plan.regions, r.operators ≠ []
  names_eq : ∀ r ∈ plan.regions,
    r.operatorNames.map some = r.operators.map fun i => (g.operators[i]?).map Operator.name
  /-- Neighbours have different targets. -/
  alternates : plan.regions.IsChain fun a b => a.target ≠ b.target

/-- The plan of runs that follow one another over all operators, and whose neighbours differ, is a
division. -/
theorem divides_ofRuns (h : Run.Tiles 0 runs g.operators.length)
    (halternates : Run.Alternates runs) : (Plan.ofRuns g runs).Divides g where
  operators_eq := by
    rw [Plan.ofRuns, h.flatMap_operators, Nat.sub_zero, List.range_eq_range']
  indices_eq := by
    rw [Plan.ofRuns, Run.map_index_toRegions, Run.length_toRegions, List.range_eq_range']
  operators_ne_nil region hregion := by
    obtain ⟨r, hr, k, rfl⟩ := Run.mem_toRegions hregion
    obtain ⟨_, hlt, _⟩ := h.bounds hr
    show List.range' r.start r.length ≠ []
    exact List.ne_nil_of_mem (Run.mem_range'_iff.mpr ⟨Nat.le_refl r.start, hlt⟩)
  names_eq region hregion := by
    obtain ⟨r, hr, k, rfl⟩ := Run.mem_toRegions hregion
    obtain ⟨_, hlt, hle⟩ := h.bounds hr
    exact Run.toRegion_operatorNames (Nat.le_of_lt hlt) hle
  alternates := by
    have hmap : ((Plan.ofRuns g runs).regions.map Region.target).IsChain (· ≠ ·) := by
      rw [Plan.ofRuns, Run.map_target_toRegions, List.isChain_map]
      exact halternates
    rwa [List.isChain_map] at hmap

theorem tiles_verdicts (minRegionSize : Nat) (verdict : Operator → Option FallbackReason)
    (ops : List Operator) :
    Run.Tiles 0 (Run.ofVerdicts minRegionSize (ops.map verdict)) ops.length := by
  have h := Run.tiles_ofVerdicts minRegionSize (ops.map verdict)
  rwa [List.length_map] at h

/-- The runs of a graph follow one another over all operators, and neighbours differ, whether or not
operators may fall back: without fallback there is one run of them all. -/
theorem runs_eq_ok (hne : g.operators ≠ []) (h : HybridCompile.runs oracle g s = .ok runs) :
    Run.Tiles 0 runs g.operators.length ∧ Run.Alternates runs := by
  unfold HybridCompile.runs at h
  simp only at h
  split at h
  · cases h
    exact ⟨tiles_verdicts _ _ _, Run.alternates_coalesce _⟩
  · split at h
    · cases h
    · cases h
      exact ⟨.cons rfl (List.length_pos_iff.mpr hne) (.nil _), List.isChain_singleton _⟩

/-- A partition is the plan of the runs, or the error for which there are none. The check that comes
last never fails, by `check_ofRuns`. -/
theorem partition_eq_map (hne : g.operators ≠ []) :
    partition oracle g s = (HybridCompile.runs oracle g s).map (Plan.ofRuns g) := by
  unfold partition
  cases hruns : HybridCompile.runs oracle g s with
  | error e => simp [hne, Except.map, bind, Except.bind]
  | ok runs =>
    obtain ⟨htiles, halternates⟩ := runs_eq_ok hne hruns
    have hcheck := check_ofRuns hne htiles halternates
    unfold Plan.ofRuns at hcheck
    simp [hne, Except.map, bind, Except.bind, hcheck, Plan.ofRuns, pure, Except.pure]

/-- Every plan is the plan of runs that follow one another over all operators. -/
theorem exists_runs_of_partition (hne : g.operators ≠ []) {plan : Plan}
    (h : partition oracle g s = .ok plan) :
    ∃ runs, plan = Plan.ofRuns g runs ∧ Run.Tiles 0 runs g.operators.length ∧
      Run.Alternates runs := by
  rw [partition_eq_map hne] at h
  cases hruns : HybridCompile.runs oracle g s with
  | error e =>
    rw [hruns] at h
    cases h
  | ok runs =>
    rw [hruns] at h
    cases h
    exact ⟨runs, rfl, runs_eq_ok hne hruns⟩

end Partition

end HybridCompile
