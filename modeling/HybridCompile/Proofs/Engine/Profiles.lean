import HybridCompile.Proofs.Engine.Binding
import HybridCompile.Proofs.Tensor.Bounds

/-!
# HybridCompile — the ranges that an engine sees

A backend takes the bounds of a profile as they are. They come from a description in the settings,
and a description whose bounds are not well ordered cannot be made, neither by a call, nor from a
request, nor for a copy of other settings. So no backend sees another range.

* `TensorSpec.exists_dynamic_eq_ok_iff`, `TensorSpec.dynamic_eq_error_iff` — which ranges are taken.
* `Profile.Serves` — a profile as a backend can take it.
* `profiles_wellOrdered` — the whole.
-/

namespace HybridCompile

/-! ## Descriptions -/

namespace TensorSpec

variable {min opt max shape : Dims} {dtype : ElementType} {layout : Layout} {spec : TensorSpec}
  {fault : Fault}

/-- The description was made for one shape. -/
def IsFixed (spec : TensorSpec) : Prop := ∃ shape, fixed shape spec.dtype spec.layout = .ok spec

theorem extent_of_fixed (h : fixed shape dtype layout = .ok spec) : spec.extent = .fixed shape :=
  (ofExtent_eq_ok_iff.mp h).1

/-- The description of a range has the bounds of the range. -/
theorem holds_of_dynamic (h : dynamic min opt max dtype layout = .ok spec) :
    spec.min = min ∧ spec.opt = opt ∧ spec.max = max ∧ spec.dtype = dtype ∧
      spec.layout = layout := by
  obtain ⟨hextent, hdtype, hlayout⟩ := ofExtent_eq_ok_iff.mp h
  rw [TensorSpec.min, TensorSpec.opt, TensorSpec.max, hextent]
  exact ⟨rfl, rfl, rfl, hdtype, hlayout⟩

theorem exists_dynamic_eq_ok_iff :
    (∃ spec, dynamic min opt max dtype layout = .ok spec) ↔ WellOrdered min opt max := by
  simp only [dynamic, ofExtent_eq_ok_iff]
  constructor
  · rintro ⟨spec, hextent, -, -⟩
    exact Extent.fault?_range_eq_none_iff.mp (hextent ▸ spec.sound)
  · intro h
    have hsound := Extent.fault?_range_eq_none_iff.mpr h
    exact ⟨⟨.range min opt max, dtype, layout, hsound⟩, rfl, rfl, rfl⟩

/-- Otherwise the first thing that is wrong with the three lists is reported, as `RangeFault` orders
them. -/
theorem dynamic_eq_error_iff :
    dynamic min opt max dtype layout = .error fault ↔ RangeFault min opt max fault :=
  ofExtent_eq_error_iff.trans Extent.fault?_range_eq_some_iff

end TensorSpec

/-! ## Profiles -/

/-- The profile is what an engine for the description may rely on. -/
structure Profile.Serves (q : Profile) (spec : TensorSpec) : Prop where
  agrees : q.Agrees spec
  wellOrdered : WellOrdered q.min q.opt q.max
  isStatic_iff : q.isStatic = true ↔ spec.IsFixed ∨ spec.min = spec.opt ∧ spec.opt = spec.max
  fixed : ∀ shape dtype layout, TensorSpec.fixed shape dtype layout = .ok spec →
    q.min = shape ∧ q.opt = shape ∧ q.max = shape

section Serves

variable {q : Profile} {spec : TensorSpec}

theorem Profile.isStatic_eq_true_iff : q.isStatic = true ↔ q.min = q.opt ∧ q.opt = q.max := by
  simp [isStatic]

/-- A profile that agrees with a description serves it. The order of its bounds is part of every
`TensorSpec`, so it need not be checked again. -/
theorem Profile.Agrees.serves (h : q.Agrees spec) : q.Serves spec := by
  have hfixed : ∀ shape dtype layout, TensorSpec.fixed shape dtype layout = .ok spec →
      q.min = shape ∧ q.opt = shape ∧ q.max = shape := by
    intro shape dtype layout hspec
    have hextent := TensorSpec.extent_of_fixed hspec
    rw [h.min_eq, h.opt_eq, h.max_eq, TensorSpec.min, TensorSpec.opt, TensorSpec.max, hextent]
    exact ⟨rfl, rfl, rfl⟩
  refine ⟨h, ?_, ?_, hfixed⟩
  · rw [h.min_eq, h.opt_eq, h.max_eq]
    exact spec.wellOrdered
  · rw [Profile.isStatic_eq_true_iff, ← h.min_eq, ← h.opt_eq, ← h.max_eq]
    constructor
    · exact Or.inr
    · rintro (⟨shape, hshape⟩ | hsame)
      · obtain ⟨hmin, hopt, hmax⟩ := hfixed shape _ _ hshape
        exact ⟨hmin.trans hopt.symm, hopt.trans hmax.symm⟩
      · exact hsame

end Serves

/-- A profile says what some description says, whatever graph and region are lowered: `lowerInput`
has no other source for it. -/
theorem exists_spec_of_lower {g : ValidGraph} {r : Region} {s : Settings} {n : Network}
    {i : NetworkInput} {q : Profile} (h : lower g r s = .ok n) (hi : i ∈ n.inputs)
    (hq : i.binding = .profile q) : ∃ spec ∈ s.inputs, q.Agrees spec := by
  obtain ⟨k, hk⟩ := List.mem_iff_getElem?.mp hi
  obtain ⟨t, -, hinput⟩ := (getElem?_inputs_of_lower h).mp hk
  unfold lowerInput at hinput
  split at hinput
  · next position hposition =>
    split at hinput
    · next spec hspec =>
      cases hinput
      cases hq
      exact ⟨spec, List.mem_of_getElem? hspec, Profile.agrees_iff.mpr rfl⟩
    · cases hinput
  · cases hinput
    cases hq

/-- For any three lists of numbers: they make a description exactly when they are well ordered, and
otherwise the first thing that is wrong with them is reported. So for every graph, every region and
all settings: every profile in the network serves a description in the settings. -/
theorem profiles_wellOrdered :
    (∀ (min opt max : Dims) (dtype : ElementType) (layout : Layout),
      ((∃ spec, TensorSpec.dynamic min opt max dtype layout = .ok spec) ↔
        WellOrdered min opt max) ∧
      (∀ spec, TensorSpec.dynamic min opt max dtype layout = .ok spec →
        spec.min = min ∧ spec.opt = opt ∧ spec.max = max ∧ spec.dtype = dtype ∧
          spec.layout = layout) ∧
      ∀ fault, TensorSpec.dynamic min opt max dtype layout = .error fault ↔
        RangeFault min opt max fault) ∧
    ∀ (g : ValidGraph) (r : Region) (s : Settings) (n : Network), lower g r s = .ok n →
      ∀ i ∈ n.inputs, ∀ q, i.binding = .profile q → ∃ spec ∈ s.inputs, q.Serves spec := by
  refine ⟨fun min opt max dtype layout => ⟨?_, fun spec h => ?_, fun fault => ?_⟩,
    fun g r s n h i hi q hq => ?_⟩
  · exact TensorSpec.exists_dynamic_eq_ok_iff
  · exact TensorSpec.holds_of_dynamic h
  · exact TensorSpec.dynamic_eq_error_iff
  · obtain ⟨spec, hspec, hagrees⟩ := exists_spec_of_lower h hi hq
    exact ⟨spec, hspec, hagrees.serves⟩

-- The first region of the instance reads the range of images; a range upside down is none.
/-- A range whose lower bound is too high in one dimension is refused, and the profile of a valid
range serves its description. -/
theorem profiles_wellOrdered_detecting :
    TensorSpec.dynamic [4, 3, 64] [4, 5, 64] [8, 3, 64] .float .contiguous =
        .error (.boundsOrder "shape range" 1 3 5 3) ∧
      ¬WellOrdered [4, 3, 64] [4, 5, 64] [8, 3, 64] ∧
      ∃ r n, detectingPlan.regions[0]? = some r ∧
        lower detectingValid r detectingSettings = .ok n ∧
        ∃ i ∈ n.inputs, ∃ q, i.binding = .profile q ∧ q.isStatic = false ∧
          ∃ spec ∈ detectingSettings.inputs, q.Serves spec := by
  obtain ⟨hranges, hprofiles⟩ := profiles_wellOrdered
  have hfault : TensorSpec.dynamic [4, 3, 64] [4, 5, 64] [8, 3, 64] .float .contiguous =
    .error (.boundsOrder "shape range" 1 3 5 3) := by decide
  refine ⟨hfault, fun hordered => ?_, ?_⟩
  · obtain ⟨spec, hspec⟩ := (hranges _ _ _ .float .contiguous).1.mpr hordered
    cases hfault.symm.trans hspec
  · let r : Region := Run.toRegion detectingValid 0 ⟨.accelerator, 0, 1, []⟩
    obtain ⟨n, hlower⟩ : ∃ n, lower detectingValid r detectingSettings = .ok n := ⟨_, rfl⟩
    have hserves := hprofiles _ _ _ _ hlower
    cases hlower
    exact ⟨r, _, rfl, rfl, _, List.mem_cons_self, _, rfl, rfl, hserves _ List.mem_cons_self _ rfl⟩

end HybridCompile
