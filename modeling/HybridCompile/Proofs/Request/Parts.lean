import HybridCompile.Proofs.Settings.Construction
import HybridCompile.Proofs.Tensor.Bounds
import Mathlib.Data.List.Nodup

/-!
# HybridCompile — the parts of a request

Each part of a request describes one value at most. For the inputs, the device and the fallback
policy this module says which value that is, when there is one, and which fault is named when there
is none; what a name stands for is a matter of a table of spellings.

* `Vocabulary.Spells`, `Vocabulary.parse_eq_ok_iff`, `Vocabulary.parse_reports` — what a name stands
  for, and what is said of one that stands for nothing.
* `InputEntry.Describes`, `DeviceEntry.Describes`, `FallbackEntry.Describes` — the values.
* `InputEntry.checks`, `DeviceEntry.checks`, `FallbackEntry.checks` — the faults, in their order.
-/

namespace HybridCompile

/-! ## Names -/

namespace Text

variable {α : Type} {table : List (String × α)} {name : String} {a : α}

/-- Where no name stands for two things, `findName?` finds what the name stands for. -/
theorem findName?_eq_some_iff (hdistinct : (table.map Prod.fst).Nodup) :
    findName? table name = some a ↔ (name, a) ∈ table := by
  rw [findName?, Option.map_eq_some_iff]
  constructor
  · rintro ⟨entry, hfind, rfl⟩
    have hname : entry.1 = name := by simpa using List.find?_some hfind
    rw [← hname]
    exact List.mem_of_find?_eq_some hfind
  · intro hmem
    obtain ⟨entry, hfind⟩ : ∃ entry, (table.find? fun entry => entry.1 == name) = some entry :=
      Option.isSome_iff_exists.mp (List.find?_isSome.mpr ⟨_, hmem, beq_self_eq_true name⟩)
    have hname : entry.1 = name := by simpa using List.find?_some hfind
    have hentry : entry = (name, a) :=
      List.inj_on_of_nodup_map hdistinct (List.mem_of_find?_eq_some hfind) hmem hname
    exact ⟨entry, hfind, by rw [hentry]⟩

end Text

namespace Vocabulary

variable {α : Type} {v : Vocabulary α} {text : String} {a : α}

/-- The text is a name of the thing, once it is brought into the form in which names are looked
up. -/
def Spells (v : Vocabulary α) (text : String) (a : α) : Prop := (v.fold text, a) ∈ v.spellings

/-- The text is a name of nothing. -/
def Unknown (v : Vocabulary α) (text : String) : Prop := ¬∃ a, v.Spells text a

/-- What is said of a text that is a name of nothing. -/
def UnknownName (v : Vocabulary α) (text : String) (fault : Fault) : Prop :=
  v.Unknown text ∧ fault = .unknownName v.kind text

/-- A name stands for one thing at most, since no two rows of `Vocabulary.spellings` have one name.
-/
theorem spells_iff (h : v.Spells text a) {a' : α} : v.Spells text a' ↔ a' = a := by
  unfold Spells at h ⊢
  rw [← Text.findName?_eq_some_iff v.distinct, (Text.findName?_eq_some_iff v.distinct).mpr h,
    Option.some.injEq]
  exact eq_comm

/-- A typed name is read as the thing that it spells. -/
theorem parse_eq_ok_iff : v.parse text = .ok a ↔ v.Spells text a := by
  rw [Spells, ← Text.findName?_eq_some_iff v.distinct, parse]
  cases Text.findName? v.spellings (v.fold text) <;> simp

/-- Nothing else can be wrong with a name than that it spells nothing. -/
theorem parse_reports : Reports (v.parse text) (v.UnknownName text) := by
  intro fault
  have hnone : Text.findName? v.spellings (v.fold text) = none ↔ v.Unknown text := by
    simp only [Unknown, Spells, ← Text.findName?_eq_some_iff v.distinct,
      ← Option.isSome_iff_exists, Option.not_isSome_iff_eq_none]
  rw [UnknownName, ← hnone, parse]
  cases Text.findName? v.spellings (v.fold text) <;> simp [eq_comm]

end Vocabulary

/-! ## Inputs -/

namespace Extent

/-- No dimension is below zero, and those of a range are in order. -/
def Valid : Extent → Prop
  | fixed shape => ∀ d ∈ shape, 0 ≤ d
  | range min opt max => WellOrdered min opt max

/-- The first thing that is wrong with an extent. -/
inductive HasFault : Extent → Fault → Prop where
  | negative {shape : Dims} {value : Int64} (h : IsFirst (· < 0) shape value) :
      HasFault (fixed shape) (.negative "shape" value)
  | range {min opt max : Dims} {fault : Fault} (h : RangeFault min opt max fault) :
      HasFault (range min opt max) fault

variable {extent : Extent} {fault : Fault}

/-- The check `Extent.fault?` says nothing of a valid extent, and of no other. -/
theorem fault?_eq_none_iff : extent.fault? = none ↔ extent.Valid := by
  cases extent with
  | fixed shape => exact negative?_eq_none_iff
  | range min opt max => exact fault?_range_eq_none_iff

/-- The check `Extent.fault?` gives the first fault of an extent: the first dimension below zero of
a shape, or the first of the checks that a range fails. -/
theorem fault?_eq_some_iff : extent.fault? = some fault ↔ extent.HasFault fault := by
  cases extent with
  | fixed shape =>
    refine negative?_eq_some_iff.trans ⟨?_, ?_⟩
    · rintro ⟨value, hvalue, rfl⟩
      exact .negative hvalue
    · rintro ⟨hvalue⟩
      exact ⟨_, hvalue, rfl⟩
  | range min opt max =>
    exact fault?_range_eq_some_iff.trans ⟨.range, fun h => by cases h with | range h => exact h⟩

/-- What is wrong with an extent is in a field that has a name. -/
theorem HasFault.exists_field (h : extent.HasFault fault) :
    ∃ field, fault.field? = some field ∧ field.isEmpty = false := by
  cases h with
  | negative h => exact ⟨_, rfl, rfl⟩
  | @range min opt max _ h =>
    cases h with
    | ranks | order => exact ⟨_, rfl, rfl⟩
    | negative hranks hshape hvalue =>
      refine ⟨_, rfl, ?_⟩
      have hnames : ∀ b ∈ namedBounds min opt max, b.1.isEmpty = false := by simp [namedBounds]
      exact hnames _ hshape.mem

end Extent

namespace InputEntry

/-- The entry gives one shape and nothing else, or all three shapes of a range and nothing else. -/
inductive Gives : InputEntry → Extent → Prop where
  | shape {shape : Dims} {dtype format : String} :
      Gives ⟨some shape, none, none, none, dtype, format⟩ (.fixed shape)
  | range {min opt max : Dims} {dtype format : String} :
      Gives ⟨none, some min, some opt, some max, dtype, format⟩ (.range min opt max)

/-- The entry describes the input. -/
structure Describes (e : InputEntry) (spec : TensorSpec) : Prop where
  dtype : ElementType.names.Spells e.dtype spec.dtype
  layout : Layout.names.Spells e.format spec.layout
  extent : e.Gives spec.extent

/-- The entry has two known names, and a shape or a range that is valid. -/
structure Acceptable (e : InputEntry) : Prop where
  dtype : ∃ t, ElementType.names.Spells e.dtype t
  layout : ∃ l, Layout.names.Spells e.format l
  extent : ∃ x, e.Gives x ∧ x.Valid

/-- What is wrong with the shapes of an entry. -/
inductive ShapeFault (e : InputEntry) : Fault → Prop where
  | form (h : ¬∃ x, e.Gives x) : ShapeFault e (.incompatible "shape"
      "give either `shape` or all of `min_shape`, `opt_shape`, `max_shape`")
  | extent {x : Extent} {fault : Fault} (hx : e.Gives x) (h : x.HasFault fault) :
      ShapeFault e fault

/-- What an entry is checked for, in this order. -/
def checks (e : InputEntry) : List (Fault → Prop) :=
  [ElementType.names.UnknownName e.dtype,
   Layout.names.UnknownName e.format, e.ShapeFault]

variable {e : InputEntry} {x x' : Extent} {spec : TensorSpec} {fault : Fault}

theorem Gives.unique (h : e.Gives x) (h' : e.Gives x') : x = x' := by
  cases h <;> cases h' <;> rfl

theorem gives_fixed_iff {shape : Dims} : e.Gives (.fixed shape) ↔
    e.shape = some shape ∧ e.minShape = none ∧ e.optShape = none ∧ e.maxShape = none := by
  obtain ⟨shape?, min?, opt?, max?, dtype, format⟩ := e
  constructor
  · rintro ⟨⟩
    exact ⟨rfl, rfl, rfl, rfl⟩
  · rintro ⟨rfl, rfl, rfl, rfl⟩
    exact .shape

theorem gives_range_iff {min opt max : Dims} : e.Gives (.range min opt max) ↔
    e.shape = none ∧ e.minShape = some min ∧ e.optShape = some opt ∧ e.maxShape = some max := by
  obtain ⟨shape?, min?, opt?, max?, dtype, format⟩ := e
  constructor
  · rintro ⟨⟩
    exact ⟨rfl, rfl, rfl, rfl⟩
  · rintro ⟨rfl, rfl, rfl, rfl⟩
    exact .range

/-- Of shapes that have the form of a shape or a range, only the numbers can be wrong. -/
theorem Gives.shapeFault_iff (hx : e.Gives x) : e.ShapeFault fault ↔ x.HasFault fault := by
  constructor
  · rintro (hnone | ⟨hx', hfault⟩)
    · exact absurd ⟨x, hx⟩ hnone
    · exact hx.unique hx' ▸ hfault
  · exact .extent hx

/-- The conversion `InputEntry.toSpec` succeeds with a spec exactly if the entry describes it. The
two names are read first, and then the form of the shapes decides. -/
theorem toSpec_eq_ok_iff : e.toSpec = .ok spec ↔ e.Describes spec := by
  obtain ⟨shape?, min?, opt?, max?, dtype, format⟩ := e
  unfold toSpec
  simp only [bind_eq_ok_iff, Vocabulary.parse_eq_ok_iff]
  constructor
  · rintro ⟨t, ht, l, hl, h⟩
    split at h
    · obtain ⟨hextent, rfl, rfl⟩ := TensorSpec.ofExtent_eq_ok_iff.mp h
      exact ⟨ht, hl, hextent ▸ .shape⟩
    · obtain ⟨hextent, rfl, rfl⟩ := TensorSpec.ofExtent_eq_ok_iff.mp h
      exact ⟨ht, hl, hextent ▸ .range⟩
    · cases h
  · rintro ⟨ht, hl, hx⟩
    refine ⟨spec.dtype, ht, spec.layout, hl, ?_⟩
    generalize hextent : spec.extent = extent at hx
    cases hx <;> exact TensorSpec.ofExtent_eq_ok_iff.mpr ⟨hextent, rfl, rfl⟩

/-- An entry that describes an input can be accepted, and the other way round. -/
theorem exists_describes_iff : (∃ spec, e.Describes spec) ↔ e.Acceptable := by
  constructor
  · rintro ⟨spec, hspec⟩
    exact ⟨⟨_, hspec.dtype⟩, ⟨_, hspec.layout⟩, _, hspec.extent,
      Extent.fault?_eq_none_iff.mp spec.sound⟩
  · rintro ⟨⟨t, ht⟩, ⟨l, hl⟩, x, hx, hvalid⟩
    exact ⟨⟨x, t, l, Extent.fault?_eq_none_iff.mpr hvalid⟩, ht, hl, hx⟩

/-- What `InputEntry.toSpec` reports is the first of `InputEntry.checks` that fails. The cases are
those of the conversion: a shape, a range, and shapes that have neither form. -/
theorem toSpec_reports : Reports e.toSpec (FirstOf e.checks) := by
  refine Vocabulary.parse_reports.bind fun t _ => Vocabulary.parse_reports.bind fun l _ =>
    Reports.single fun fault => ?_
  split
  · next shape hshape hmin hopt hmax =>
    have hx : e.Gives (.fixed shape) := gives_fixed_iff.mpr ⟨hshape, hmin, hopt, hmax⟩
    rw [hx.shapeFault_iff, ← Extent.fault?_eq_some_iff]
    exact TensorSpec.ofExtent_eq_error_iff
  · next min opt max hshape hmin hopt hmax =>
    have hx : e.Gives (.range min opt max) := gives_range_iff.mpr ⟨hshape, hmin, hopt, hmax⟩
    rw [hx.shapeFault_iff, ← Extent.fault?_eq_some_iff]
    exact TensorSpec.ofExtent_eq_error_iff
  · next hshape hrange =>
    have hnone : ¬∃ x, e.Gives x := by
      rintro ⟨x, hx⟩
      cases hx with
      | shape => exact hshape _ rfl rfl rfl rfl
      | range => exact hrange _ _ _ rfl rfl rfl rfl
    constructor
    · rintro ⟨⟩
      exact .form hnone
    · rintro (_ | ⟨hx, -⟩)
      · rfl
      · exact absurd ⟨_, hx⟩ hnone

theorem ShapeFault.exists_field (h : e.ShapeFault fault) :
    ∃ field, fault.field? = some field ∧ field.isEmpty = false := by
  cases h with
  | form h => exact ⟨_, rfl, rfl⟩
  | extent hx h => exact h.exists_field

end InputEntry

/-! ## Devices -/

namespace Device

variable {field : String} {value : Int64} {n : UInt32}

theorem idOf_eq_ok_iff : idOf field value = .ok n ↔ (n.toNat : Int) = value.toInt :=
  wordOf_eq_ok_iff

theorem idOf_reports : Reports (idOf field value)
    (WordFault field s!"{value} does not fit a device id" value) :=
  wordOf_reports

end Device

namespace DeviceEntry

/-- The entry describes the device. -/
structure Describes (e : DeviceEntry) (d : Device) : Prop where
  kind : DeviceKind.names.Spells e.deviceType d.kind
  primaryId : (d.primaryId.toNat : Int) = e.gpuId.toInt
  auxCoreId : (d.auxCoreId.toNat : Int) = e.dlaCore.toInt
  allowFallback : d.allowFallback = e.allowGpuFallback

/-- The entry has a known type, and two ids of 32 bits. -/
structure Acceptable (e : DeviceEntry) : Prop where
  kind : ∃ k, DeviceKind.names.Spells e.deviceType k
  gpuId : 0 ≤ e.gpuId.toInt ∧ e.gpuId.toInt < 2 ^ 32
  dlaCore : 0 ≤ e.dlaCore.toInt ∧ e.dlaCore.toInt < 2 ^ 32

/-- What an entry is checked for, in this order. -/
def checks (e : DeviceEntry) : List (Fault → Prop) :=
  [DeviceKind.names.UnknownName e.deviceType,
   WordFault "device.gpu_id" s!"{e.gpuId} does not fit a device id" e.gpuId,
   WordFault "device.dla_core" s!"{e.dlaCore} does not fit a device id" e.dlaCore]

variable {e : DeviceEntry} {d : Device}

/-- The conversion `DeviceEntry.toDevice` succeeds with a device exactly if the entry describes it.
-/
theorem toDevice_eq_ok_iff : e.toDevice = .ok d ↔ e.Describes d := by
  unfold toDevice Device.make
  simp only [bind_eq_ok_iff, Vocabulary.parse_eq_ok_iff, Device.idOf_eq_ok_iff]
  constructor
  · rintro ⟨kind, hkind, gpuId, hgpu, core, hcore, ⟨⟩⟩
    exact ⟨hkind, hgpu, hcore, rfl⟩
  · rintro ⟨hkind, hgpu, hcore, hallow⟩
    exact ⟨_, hkind, _, hgpu, _, hcore, by rw [← hallow]; rfl⟩

theorem exists_describes_iff : (∃ d, e.Describes d) ↔ e.Acceptable := by
  constructor
  · rintro ⟨d, hkind, hgpu, hcore, -⟩
    exact ⟨⟨_, hkind⟩, exists_word_iff.mp ⟨_, hgpu⟩, exists_word_iff.mp ⟨_, hcore⟩⟩
  · rintro ⟨⟨kind, hkind⟩, hgpu, hcore⟩
    obtain ⟨gpuId, hgpuId⟩ := exists_word_iff.mpr hgpu
    obtain ⟨core, hcoreId⟩ := exists_word_iff.mpr hcore
    exact ⟨⟨kind, gpuId, core, e.allowGpuFallback⟩, hkind, hgpuId, hcoreId, rfl⟩

/-- What `DeviceEntry.toDevice` reports is the first of `DeviceEntry.checks` that fails, in the
order in which the three fields are read. -/
theorem toDevice_reports : Reports e.toDevice (FirstOf e.checks) := by
  refine Vocabulary.parse_reports.bind fun kind _ => ?_
  refine Device.idOf_reports.bind fun gpuId _ => ?_
  exact Device.idOf_reports.bind fun core _ => Reports.ok _

end DeviceEntry

/-! ## Fallback policies -/

namespace FallbackEntry

/-- The entry describes the policy: the same exclusions as sets. -/
structure Describes (e : FallbackEntry) (policy : FallbackPolicy) : Prop where
  enabled : policy.enabled = e.enabled
  minRegionSize : (policy.minRegionSize : Int) = e.minBlockSize.toInt
  operators : ∀ name, policy.excludedOperators.contains name = true ↔ name ∈ e.operators
  modules : ∀ name, policy.excludedModules.contains name = true ↔ name ∈ e.modules

/-- The least size is one at least, and no exclusion is blank. -/
structure Acceptable (e : FallbackEntry) : Prop where
  minBlockSize : 1 ≤ e.minBlockSize
  operators : ∀ name ∈ e.operators, Text.isBlankText name = false
  modules : ∀ name ∈ e.modules, Text.isBlankText name = false

/-- The least of the names that are blank. -/
structure LeastBlank (names : List String) (name : String) : Prop where
  mem : name ∈ names
  blank : Text.isBlankText name = true
  least : ∀ other ∈ names, Text.isBlankText other = true → name ≤ other

/-- The fault that names the least blank one of the names. -/
def BlankFault (names : List String) (fault : Fault) : Prop :=
  ∃ name, LeastBlank names name ∧
    fault = .outOfRange "fallback" s!"exclusion entries must be non-blank, got '{name}'"

/-- What an entry is checked for, in this order. -/
def checks (e : FallbackEntry) : List (Fault → Prop) :=
  [fun fault => e.minBlockSize < 1 ∧
      fault = .outOfRange "fallback.min_block_size" s!"must be at least 1, got {e.minBlockSize}",
   BlankFault e.operators, BlankFault e.modules]

variable {e : FallbackEntry} {policy policy' : FallbackPolicy} {names : List String} {name : String}

theorem mem_toList_ofList : name ∈ (NameSet.ofList names).toList ↔ name ∈ names := by
  rw [← NameSet.contains_iff, NameSet.contains_ofList, List.contains_iff_mem]

theorem find?_isBlankText_eq_none_iff :
    (NameSet.ofList names).toList.find? Text.isBlankText = none ↔
      ∀ name ∈ names, Text.isBlankText name = false := by
  simp [List.find?_eq_none, mem_toList_ofList]

theorem LeastBlank.unique {name' : String} (h : LeastBlank names name)
    (h' : LeastBlank names name') : name = name' :=
  String.le_antisymm (h.least _ h'.mem h'.blank) (h'.least _ h.mem h.blank)

/-- A set is walked from its least name on, so that the blank name that is found is the least one.
The walk is over a sorted list, in which what stands before a name is less. -/
theorem find?_isBlankText_eq_some_iff :
    (NameSet.ofList names).toList.find? Text.isBlankText = some name ↔ LeastBlank names name := by
  have hfound : ∀ found, (NameSet.ofList names).toList.find? Text.isBlankText = some found →
      LeastBlank names found := by
    intro found hfind
    obtain ⟨ahead, behind, hsplit, hahead, hblank⟩ := find?_eq_some_iff_isFirst.mp hfind
    have hincreasing := (NameSet.ofList names).increasing
    rw [hsplit, List.pairwise_append, List.pairwise_cons] at hincreasing
    obtain ⟨-, ⟨hbehind, -⟩, -⟩ := hincreasing
    have hmem : ∀ other, other ∈ names ↔ other ∈ ahead ∨ other = found ∨ other ∈ behind := by
      intro other
      rw [← mem_toList_ofList, hsplit, List.mem_append, List.mem_cons]
    refine ⟨(hmem found).mpr (Or.inr (Or.inl rfl)), hblank, fun other hother hother' => ?_⟩
    rcases (hmem other).mp hother with hin | rfl | hin
    · exact absurd hother' (hahead other hin)
    · exact String.le_refl other
    · exact String.not_lt.mp (String.lt_asymm (hbehind other hin))
  refine ⟨hfound name, fun h => ?_⟩
  cases hfind : (NameSet.ofList names).toList.find? Text.isBlankText with
  | none =>
    have hnone := find?_isBlankText_eq_none_iff.mp hfind name h.mem
    rw [h.blank] at hnone
    cases hnone
  | some found => rw [(hfound found hfind).unique h]

theorem blankFault_iff {fault : Fault} : BlankFault names fault ↔
    ∃ name, (NameSet.ofList names).toList.find? Text.isBlankText = some name ∧
      fault = .outOfRange "fallback" s!"exclusion entries must be non-blank, got '{name}'" := by
  simp only [BlankFault, find?_isBlankText_eq_some_iff]

/-- An entry describes one policy at most: its exclusions are sets, and sets with the same names are
equal. -/
theorem Describes.unique (h : e.Describes policy) (h' : e.Describes policy') : policy = policy' := by
  have hoperators : policy.excludedOperators = policy'.excludedOperators :=
    NameSet.eq_of_contains fun name =>
      Bool.eq_iff_iff.mpr ((h.operators name).trans (h'.operators name).symm)
  have hmodules : policy.excludedModules = policy'.excludedModules :=
    NameSet.eq_of_contains fun name =>
      Bool.eq_iff_iff.mpr ((h.modules name).trans (h'.modules name).symm)
  have hsize : policy.minRegionSize = policy'.minRegionSize :=
    Int.ofNat_inj.mp (h.minRegionSize.trans h'.minRegionSize.symm)
  exact FallbackPolicy.ext (h.enabled.trans h'.enabled.symm) hsize hoperators hmodules

/-- From an acceptable entry there is a policy, and the entry describes it. None of the checks of
`FallbackPolicy.make` stops it, and a `NameSet` has the names of its list. -/
theorem Acceptable.exists_toPolicy (h : e.Acceptable) :
    ∃ policy, e.toPolicy = .ok policy ∧ e.Describes policy := by
  have hsize : ¬e.minBlockSize < 1 := Int64.not_lt.mpr h.minBlockSize
  have hpositive : 1 ≤ e.minBlockSize.toInt := Int64.le_iff_toInt_le.mp h.minBlockSize
  refine ⟨⟨e.enabled, e.minBlockSize.toInt.toNat, .ofList e.operators, .ofList e.modules⟩, ?_,
    rfl, ?_, fun name => ?_, fun name => ?_⟩
  · unfold toPolicy FallbackPolicy.make
    rw [if_neg hsize]
    dsimp only
    rw [List.find?_append, find?_isBlankText_eq_none_iff.mpr h.operators,
      find?_isBlankText_eq_none_iff.mpr h.modules]
    rfl
  · show (e.minBlockSize.toInt.toNat : Int) = _
    omega
  · rw [NameSet.contains_ofList, List.contains_iff_mem]
  · rw [NameSet.contains_ofList, List.contains_iff_mem]

/-- What `FallbackEntry.toPolicy` reports is the first of `FallbackEntry.checks` that fails: the
size, then the operators in order, then the modules. -/
theorem toPolicy_reports : Reports e.toPolicy (FirstOf e.checks) := by
  intro fault
  simp only [checks, firstOf_cons_iff, firstOf_nil_iff, blankFault_iff]
  unfold toPolicy FallbackPolicy.make
  by_cases hsize : e.minBlockSize < 1
  · rw [if_pos hsize]
    simp [hsize, eq_comm]
  · rw [if_neg hsize]
    dsimp only
    rw [List.find?_append]
    -- the operators are walked before the modules
    cases (NameSet.ofList e.operators).toList.find? Text.isBlankText with
    | some name => simp [hsize, eq_comm]
    | none =>
      cases (NameSet.ofList e.modules).toList.find? Text.isBlankText with
      | some name => simp [hsize, eq_comm]
      | none => simp [hsize]

/-- An entry from which there is a policy is acceptable: each check that it lets pass is one of the
three conditions. -/
theorem acceptable_of_toPolicy (h : e.toPolicy = .ok policy) : e.Acceptable := by
  unfold toPolicy FallbackPolicy.make at h
  split at h
  · cases h
  · next hsize =>
    dsimp only at h
    rw [List.find?_append] at h
    split at h
    · cases h
    · next hnone =>
      obtain ⟨hoperators, hmodules⟩ := Option.or_eq_none_iff.mp hnone
      exact ⟨Int64.not_lt.mp hsize, find?_isBlankText_eq_none_iff.mp hoperators,
        find?_isBlankText_eq_none_iff.mp hmodules⟩

/-- The conversion `FallbackEntry.toPolicy` succeeds with a policy exactly if the entry is
acceptable and describes it. -/
theorem toPolicy_eq_ok_iff : e.toPolicy = .ok policy ↔ e.Acceptable ∧ e.Describes policy := by
  constructor
  · intro h
    have hacceptable := acceptable_of_toPolicy h
    obtain ⟨policy', hpolicy', hdescribes⟩ := hacceptable.exists_toPolicy
    obtain rfl : policy = policy' := Except.ok.inj (h.symm.trans hpolicy')
    exact ⟨hacceptable, hdescribes⟩
  · rintro ⟨hacceptable, hdescribes⟩
    obtain ⟨policy', hpolicy', hdescribes'⟩ := hacceptable.exists_toPolicy
    rw [hpolicy', hdescribes.unique hdescribes']

end FallbackEntry

end HybridCompile
