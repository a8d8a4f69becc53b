import HybridCompile.Proofs.Outcome
import HybridCompile.Tensor.Spec

/-!
# HybridCompile — ranges of shapes

A range is given by three lists of numbers, of any lengths. It is accepted exactly when the lists
have one length and at each place stand three dimensions in order, none of them below zero. What is
said of another range has an order too: ranks, then dimensions below zero, then the first place that
is out of order.

* `WellOrdered` — a range as it should be.
* `RangeFault` — what is said of any other.
* `Extent.fault?_range_eq_some_iff`, `Extent.fault?_range_eq_none_iff` — the checks find just that.
* `TensorSpec.wellOrdered` — the bounds of every description are well ordered.
-/

namespace HybridCompile

/-- The bounds at a place are in order, if there are three. -/
def OrderedAt (min opt max : Dims) (i : Nat) : Prop :=
  ∀ lo mid hi, min[i]? = some lo → opt[i]? = some mid → max[i]? = some hi → lo ≤ mid ∧ mid ≤ hi

/-- The bounds at a place are out of order, and at no place before. -/
structure FirstDisorder (min opt max : Dims) (i : Nat) (lo mid hi : Int64) : Prop where
  lo_eq : min[i]? = some lo
  mid_eq : opt[i]? = some mid
  hi_eq : max[i]? = some hi
  disorder : ¬(lo ≤ mid ∧ mid ≤ hi)
  least : ∀ j < i, OrderedAt min opt max j

/-- The three shapes have as many dimensions. -/
abbrev SameRank (min opt max : Dims) : Prop := min.length = opt.length ∧ opt.length = max.length

/-- Three shapes of one rank, whose dimensions are in order and not below zero. -/
structure WellOrdered (min opt max : Dims) : Prop where
  ranks : SameRank min opt max
  bounds : ∀ (i : Nat) (lo mid hi : Int64), min[i]? = some lo → opt[i]? = some mid →
    max[i]? = some hi → 0 ≤ lo ∧ lo ≤ mid ∧ mid ≤ hi

/-- The three shapes of a range, under the names of their fields. -/
def namedBounds (min opt max : Dims) : List (String × Dims) :=
  [("min_shape", min), ("opt_shape", opt), ("max_shape", max)]

/-- What is wrong with a range: first its ranks, then the first dimension below zero of the first
shape that has one, then the first place at which its bounds are out of order. -/
inductive RangeFault (min opt max : Dims) : Fault → Prop where
  | ranks (h : ¬SameRank min opt max) :
      RangeFault min opt max (.rankMismatch "shape range" min.length opt.length max.length)
  | negative {field : String} {dims : Dims} {value : Int64} (hranks : SameRank min opt max)
      (hshape : IsFirst (fun b => ∃ d ∈ b.2, d < 0) (namedBounds min opt max) (field, dims))
      (hvalue : IsFirst (· < 0) dims value) : RangeFault min opt max (.negative field value)
  | order {i : Nat} {lo mid hi : Int64} (hranks : SameRank min opt max)
      (hnonneg : ∀ b ∈ namedBounds min opt max, ∀ d ∈ b.2, 0 ≤ d)
      (hfirst : FirstDisorder min opt max i lo mid hi) :
      RangeFault min opt max (.boundsOrder "shape range" i lo mid hi)

/-! ## Well ordered ranges -/

section WellOrdered

variable {min opt max : Dims}

theorem WellOrdered.exists_bounds (h : WellOrdered min opt max) {i : Nat} (hi : i < opt.length) :
    ∃ lo mid hi, min[i]? = some lo ∧ opt[i]? = some mid ∧ max[i]? = some hi ∧
      0 ≤ lo ∧ lo ≤ mid ∧ mid ≤ hi := by
  obtain ⟨hlo, hhi⟩ := h.ranks
  have hmin := List.getElem?_eq_getElem (l := min) (hlo ▸ hi)
  have hopt := List.getElem?_eq_getElem (l := opt) hi
  have hmax := List.getElem?_eq_getElem (l := max) (hhi ▸ hi)
  exact ⟨_, _, _, hmin, hopt, hmax, h.bounds i _ _ _ hmin hopt hmax⟩

/-- The lower bounds are not below zero, so the others are not either: in each axis they go up from
`min` over `opt` to `max`. -/
theorem WellOrdered.nonneg (h : WellOrdered min opt max) :
    ∀ b ∈ namedBounds min opt max, ∀ d ∈ b.2, 0 ≤ d := by
  intro b hb d hd
  simp only [namedBounds, List.mem_cons, List.not_mem_nil, or_false] at hb
  obtain ⟨i, hi⟩ := List.mem_iff_getElem?.mp hd
  have hlt : i < opt.length := by
    have hbound : i < b.2.length := (List.getElem?_eq_some_iff.mp hi).1
    obtain ⟨hlo, hhi⟩ := h.ranks
    rcases hb with rfl | rfl | rfl
    · exact hlo ▸ hbound
    · exact hbound
    · exact hhi ▸ hbound
  obtain ⟨lo, mid, hi', hlo, hmid, hhi, hzero, hle, hle'⟩ := h.exists_bounds hlt
  rcases hb with rfl | rfl | rfl
  · cases hi.symm.trans hlo
    exact hzero
  · cases hi.symm.trans hmid
    exact Int64.le_trans hzero hle
  · cases hi.symm.trans hhi
    exact Int64.le_trans hzero (Int64.le_trans hle hle')

theorem wellOrdered_iff :
    WellOrdered min opt max ↔ SameRank min opt max ∧
      (∀ b ∈ namedBounds min opt max, ∀ d ∈ b.2, 0 ≤ d) ∧ ∀ i, OrderedAt min opt max i := by
  constructor
  · intro h
    exact ⟨h.ranks, h.nonneg, fun i lo mid hi hlo hmid hhi => (h.bounds i lo mid hi hlo hmid hhi).2⟩
  · rintro ⟨hranks, hnonneg, hordered⟩
    refine ⟨hranks, fun i lo mid hi hlo hmid hhi => ⟨?_, hordered i lo mid hi hlo hmid hhi⟩⟩
    exact hnonneg ("min_shape", min) (by simp [namedBounds]) lo (List.mem_of_getElem? hlo)

theorem wellOrdered_self {shape : Dims} (h : ∀ d ∈ shape, 0 ≤ d) :
    WellOrdered shape shape shape := by
  refine ⟨⟨rfl, rfl⟩, fun i lo mid hi hlo hmid hhi => ?_⟩
  cases hlo.symm.trans hmid
  cases hlo.symm.trans hhi
  exact ⟨h lo (List.mem_of_getElem? hlo), Int64.le_refl lo, Int64.le_refl lo⟩

end WellOrdered

namespace Extent

variable {min opt max dims : Dims} {lo mid hi lo' mid' hi' : Int64} {field : String}
  {fault : Fault} {index i : Nat}

/-! ## Dimensions below zero -/

theorem negative?_eq_none_iff : negative? field dims = none ↔ ∀ d ∈ dims, 0 ≤ d := by
  simp [negative?]

theorem negative?_eq_some_iff :
    negative? field dims = some fault ↔
      ∃ value, IsFirst (· < 0) dims value ∧ fault = .negative field value := by
  rw [negative?, Option.map_eq_some_iff]
  refine exists_congr fun value => ?_
  rw [find?_eq_some_iff_isFirst, eq_comm (a := fault)]
  simp only [decide_eq_true_eq]

/-! ## Bounds out of order -/

theorem orderedAt_cons_zero :
    OrderedAt (lo :: min) (mid :: opt) (hi :: max) 0 ↔ lo ≤ mid ∧ mid ≤ hi := by
  simp [OrderedAt]

theorem orderedAt_cons_succ :
    OrderedAt (lo :: min) (mid :: opt) (hi :: max) (i + 1) ↔ OrderedAt min opt max i := by
  simp [OrderedAt]

theorem firstDisorder_cons_zero :
    FirstDisorder (lo :: min) (mid :: opt) (hi :: max) 0 lo' mid' hi' ↔
      ¬(lo ≤ mid ∧ mid ≤ hi) ∧ lo' = lo ∧ mid' = mid ∧ hi' = hi := by
  constructor
  · rintro ⟨⟨⟩, ⟨⟩, ⟨⟩, hdisorder, -⟩
    exact ⟨hdisorder, rfl, rfl, rfl⟩
  · rintro ⟨hdisorder, rfl, rfl, rfl⟩
    exact ⟨rfl, rfl, rfl, hdisorder, by simp⟩

/-- The first place out of order behind a place that is in order is one of the rest, one further on.
-/
theorem firstDisorder_cons_succ :
    FirstDisorder (lo :: min) (mid :: opt) (hi :: max) (i + 1) lo' mid' hi' ↔
      (lo ≤ mid ∧ mid ≤ hi) ∧ FirstDisorder min opt max i lo' mid' hi' := by
  constructor
  · rintro ⟨hlo, hmid, hhi, hdisorder, hleast⟩
    obtain ⟨hfirst, hleast⟩ := Nat.forall_lt_succ_left.mp hleast
    simp only [orderedAt_cons_succ] at hleast
    exact ⟨orderedAt_cons_zero.mp hfirst, hlo, hmid, hhi, hdisorder, hleast⟩
  · rintro ⟨hfirst, hlo, hmid, hhi, hdisorder, hleast⟩
    refine ⟨hlo, hmid, hhi, hdisorder, Nat.forall_lt_succ_left.mpr ⟨?_, fun j hj => ?_⟩⟩
    · exact orderedAt_cons_zero.mpr hfirst
    · exact orderedAt_cons_succ.mpr (hleast j hj)

/-- Past the shortest of the three lists nothing is out of order. -/
theorem orderedAt_of_short
    (h : ∀ lo min' mid opt' hi max',
      min = lo :: min' → opt = mid :: opt' → max = hi :: max' → False) (i : Nat) :
    OrderedAt min opt max i := by
  intro lo mid hi hlo hmid hhi
  cases min with
  | nil => simp at hlo
  | cons lo' min' =>
    cases opt with
    | nil => simp at hmid
    | cons mid' opt' =>
      cases max with
      | nil => simp at hhi
      | cons hi' max' => exact (h _ _ _ _ _ _ rfl rfl rfl).elim

/-- The scan finds nothing exactly if every place is in order. The induction follows the scan, which
stops where one of the lists does. -/
theorem disorder?_eq_none_iff :
    disorder? index min opt max = none ↔ ∀ i, OrderedAt min opt max i := by
  fun_induction disorder? index min opt max with
  | case1 index lo min mid opt hi max h ih =>
    have hordered : lo ≤ mid ∧ mid ≤ hi := by simpa using h
    rw [ih]
    refine Iff.trans ?_ Nat.and_forall_add_one
    simp only [orderedAt_cons_zero, orderedAt_cons_succ, hordered, and_self, true_and]
  | case2 index lo min mid opt hi max h =>
    have hdisorder : ¬(lo ≤ mid ∧ mid ≤ hi) := by simpa using h
    refine ⟨fun hnone => (by cases hnone), fun hall => ?_⟩
    exact absurd (orderedAt_cons_zero.mp (hall 0)) hdisorder
  | case3 index min opt max h => exact ⟨fun _ => orderedAt_of_short h, fun _ => rfl⟩

/-- The scan stops at the first place whose bounds are out of order. The induction follows the scan;
`index` is the place at which it stands. -/
theorem disorder?_eq_some_iff :
    disorder? index min opt max = some fault ↔
      ∃ i lo mid hi, FirstDisorder min opt max i lo mid hi ∧
        fault = .boundsOrder "shape range" (index + i) lo mid hi := by
  fun_induction disorder? index min opt max with
  | case1 index lo min mid opt hi max h ih =>
    have hordered : lo ≤ mid ∧ mid ≤ hi := by simpa using h
    rw [ih]
    constructor
    · rintro ⟨i, lo', mid', hi', hfirst, rfl⟩
      refine ⟨i + 1, lo', mid', hi', firstDisorder_cons_succ.mpr ⟨hordered, hfirst⟩, ?_⟩
      rw [Nat.add_assoc, Nat.add_comm 1]
    · rintro ⟨i, lo', mid', hi', hfirst, rfl⟩
      cases i with
      | zero => exact absurd hordered (firstDisorder_cons_zero.mp hfirst).1
      | succ i =>
        refine ⟨i, lo', mid', hi', (firstDisorder_cons_succ.mp hfirst).2, ?_⟩
        rw [Nat.add_assoc, Nat.add_comm 1]
  | case2 index lo min mid opt hi max h =>
    have hdisorder : ¬(lo ≤ mid ∧ mid ≤ hi) := by simpa using h
    constructor
    · rintro ⟨⟩
      exact ⟨0, lo, mid, hi, firstDisorder_cons_zero.mpr ⟨hdisorder, rfl, rfl, rfl⟩, rfl⟩
    · rintro ⟨i, lo', mid', hi', hfirst, rfl⟩
      cases i with
      | zero =>
        obtain ⟨-, rfl, rfl, rfl⟩ := firstDisorder_cons_zero.mp hfirst
        rfl
      | succ i => exact absurd (firstDisorder_cons_succ.mp hfirst).1 hdisorder
  | case3 index min opt max h =>
    constructor
    · rintro ⟨⟩
    · rintro ⟨i, lo, mid, hi, hfirst, -⟩
      exact absurd (orderedAt_of_short h i lo mid hi hfirst.lo_eq hfirst.mid_eq hfirst.hi_eq)
        hfirst.disorder

/-! ## All that is looked at -/

/-- The first dimension below zero of the first shape that has one. -/
def firstNegative? (shapes : List (String × Dims)) : Option Fault :=
  shapes.findSome? fun b => negative? b.1 b.2

theorem firstNegative?_eq_none_iff {shapes : List (String × Dims)} :
    firstNegative? shapes = none ↔ ∀ b ∈ shapes, ∀ d ∈ b.2, 0 ≤ d := by
  simp only [firstNegative?, List.findSome?_eq_none_iff, negative?_eq_none_iff]

/-- The first dimension below zero of the first shape that has one is what is found. -/
theorem firstNegative?_eq_some_iff {shapes : List (String × Dims)} :
    firstNegative? shapes = some fault ↔
      ∃ field dims value, IsFirst (fun b => ∃ d ∈ b.2, d < 0) shapes (field, dims) ∧
        IsFirst (· < 0) dims value ∧ fault = .negative field value := by
  rw [firstNegative?, List.findSome?_eq_some_iff]
  simp only [negative?_eq_none_iff, negative?_eq_some_iff]
  constructor
  · rintro ⟨ahead, ⟨field, dims⟩, behind, hsplit, ⟨value, hvalue, rfl⟩, hahead⟩
    refine ⟨field, dims, value, ⟨ahead, behind, hsplit, ?_, value, hvalue.mem, hvalue.holds⟩,
      hvalue, rfl⟩
    rintro b hb ⟨d, hd, hneg⟩
    exact Int64.not_le.mpr hneg (hahead b hb d hd)
  · rintro ⟨field, dims, value, ⟨ahead, behind, hsplit, hahead, -⟩, hvalue, rfl⟩
    refine ⟨ahead, (field, dims), behind, hsplit, ⟨value, hvalue, rfl⟩, fun b hb d hd => ?_⟩
    exact Int64.not_lt.mp fun hneg => hahead b hb ⟨d, hd, hneg⟩

/-- The checks of a range in their order: ranks, then dimensions below zero, then bounds out of
order. -/
theorem fault?_range (min opt max : Dims) :
    (range min opt max).fault? =
      if SameRank min opt max then
        (firstNegative? (namedBounds min opt max)).or (disorder? 0 min opt max)
      else some (.rankMismatch "shape range" min.length opt.length max.length) := by
  by_cases hranks : SameRank min opt max
  · have hsame : ¬(min.length ≠ opt.length ∨ opt.length ≠ max.length) := by
      rw [← not_and_or]
      exact not_not.mpr hranks
    rw [if_pos hranks, fault?, if_neg hsame]
    cases hmin : negative? "min_shape" min <;> cases hopt : negative? "opt_shape" opt <;>
      cases hmax : negative? "max_shape" max <;>
        simp [firstNegative?, namedBounds, hmin, hopt, hmax, Option.orElse]
  · have hdiffer : min.length ≠ opt.length ∨ opt.length ≠ max.length := not_and_or.mp hranks
    rw [if_neg hranks, fault?, if_pos hdiffer]

/-- The fault that is found in a range is the `RangeFault` that it has. The ranks come first, then
negative bounds, then their order. -/
theorem fault?_range_eq_some_iff :
    (range min opt max).fault? = some fault ↔ RangeFault min opt max fault := by
  rw [fault?_range]
  by_cases hranks : SameRank min opt max
  · rw [if_pos hranks, Option.or_eq_some_iff, firstNegative?_eq_some_iff,
      firstNegative?_eq_none_iff, disorder?_eq_some_iff]
    constructor
    · rintro (⟨field, dims, value, hshape, hvalue, rfl⟩ | ⟨hnonneg, i, lo, mid, hi, hfirst, rfl⟩)
      · exact .negative hranks hshape hvalue
      · rw [Nat.zero_add]
        exact .order hranks hnonneg hfirst
    · rintro (hdiffer | ⟨-, hshape, hvalue⟩ | ⟨-, hnonneg, hfirst⟩)
      · exact absurd hranks hdiffer
      · exact Or.inl ⟨_, _, _, hshape, hvalue, rfl⟩
      · exact Or.inr ⟨hnonneg, _, _, _, _, hfirst, by rw [Nat.zero_add]⟩
  · rw [if_neg hranks]
    constructor
    · rintro ⟨⟩
      exact .ranks hranks
    · rintro (_ | ⟨hsame, -, -⟩ | ⟨hsame, -, -⟩)
      · rfl
      · exact absurd hsame hranks
      · exact absurd hsame hranks

/-- No fault is found in a range exactly if it is `WellOrdered`. -/
theorem fault?_range_eq_none_iff :
    (range min opt max).fault? = none ↔ WellOrdered min opt max := by
  rw [fault?_range, wellOrdered_iff]
  by_cases hranks : SameRank min opt max
  · rw [if_pos hranks, Option.or_eq_none_iff, firstNegative?_eq_none_iff, disorder?_eq_none_iff]
    exact ⟨fun h => ⟨hranks, h⟩, And.right⟩
  · rw [if_neg hranks]
    exact ⟨fun h => (by cases h), fun h => absurd h.1 hranks⟩

end Extent

/-! ## Descriptions -/

namespace TensorSpec

variable {extent : Extent} {dtype : ElementType} {layout : Layout} {s : TensorSpec} {fault : Fault}

/-- An extent becomes a description with what is given, if it has no fault; being a `TensorSpec`
says that it has none. -/
theorem ofExtent_eq_ok_iff :
    ofExtent extent dtype layout = .ok s ↔
      s.extent = extent ∧ s.dtype = dtype ∧ s.layout = layout := by
  obtain ⟨extent', dtype', layout', hsound⟩ := s
  unfold ofExtent
  constructor
  · split
    · rintro ⟨⟩
      exact ⟨rfl, rfl, rfl⟩
    · rintro ⟨⟩
  · rintro ⟨rfl, rfl, rfl⟩
    split
    · rfl
    · next hfault =>
      rw [hsound] at hfault
      cases hfault

theorem ofExtent_eq_error_iff :
    ofExtent extent dtype layout = .error fault ↔ extent.fault? = some fault := by
  unfold ofExtent
  split
  · next hnone => simp [hnone]
  · next hsome => simp [hsome]

/-- The bounds of every description are well ordered, those of one shape too. -/
theorem wellOrdered (s : TensorSpec) : WellOrdered s.min s.opt s.max := by
  obtain ⟨extent, dtype, layout, hsound⟩ := s
  cases extent with
  | fixed shape => exact wellOrdered_self (Extent.negative?_eq_none_iff.mp hsound)
  | range min opt max => exact Extent.fault?_range_eq_none_iff.mp hsound

end TensorSpec

end HybridCompile
