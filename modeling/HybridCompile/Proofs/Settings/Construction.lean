import HybridCompile.Engine.Options
import HybridCompile.Proofs.Outcome
import HybridCompile.Request.Basic
import Mathlib.Algebra.GroupWithZero.Nat
import Mathlib.Algebra.Ring.Int.Defs

/-!
# HybridCompile — settings, however they were made

Settings come from a request, from a draft that was put together call by call, or from a draft of
other settings that was edited further, any number of times. `Draft.build` stands at the end of each
of these paths, so what it checks holds of all of them; and a draft of settings builds the same
settings again.

* `Draft.Edit`, `Settings.Obtainable` — the calls on a draft, and the paths.
* `Draft.Buildable`, `Draft.StoredIn` — which drafts can be built, and what is then stored.
* `Draft.build_eq_ok_iff` — building, in full.
* `Settings.sound_on_every_path` — what holds of settings on every path.
-/

namespace HybridCompile

/-! ## Paths -/

/-- A call on a draft. -/
inductive Draft.Edit where
  | input (spec : TensorSpec)
  | inputs (specs : List TensorSpec)
  | precision (t : ElementType)
  | precisions (ts : List ElementType)
  | device (d : Device)
  | fallback (policy : FallbackPolicy)
  | capability (c : Capability)
  | knob (knob : Knob) (value : Int64)
  | flag (flag : Flag) (on : Bool)
  | calibrator (c : Calibrator)
  | clearCalibrator
  deriving DecidableEq, Repr

namespace Draft

/-- The draft after a call. -/
def edit (d : Draft) : Edit → Draft
  | .input spec => d.addInput spec
  | .inputs specs => { d with inputs := specs }
  | .precision t => d.addPrecision t
  | .precisions ts => { d with precisions := some ts }
  | .device device => { d with device }
  | .fallback policy => { d with fallback := policy }
  | .capability c => { d with capability := c }
  | .knob knob value => d.setKnob knob value
  | .flag flag on => { d with flags := d.flags.set flag on }
  | .calibrator c => { d with calibrator := some c }
  | .clearCalibrator => { d with calibrator := none }

/-- The draft after some calls. -/
def editAll (d : Draft) (edits : List Edit) : Draft := edits.foldl edit d

end Draft

/-- Settings that some path leads to. -/
inductive Settings.Obtainable : Settings → Prop
  | built (edits : List Draft.Edit) {s : Settings}
      (h : (Draft.default.editAll edits).build = .ok s) : Obtainable s
  | derived {s : Settings} (hs : Obtainable s) (edits : List Draft.Edit) {s' : Settings}
      (h : (s.toDraft.editAll edits).build = .ok s') : Obtainable s'
  | requested (r : Request) {s : Settings} (h : r.toSettings = .ok s) : Obtainable s

/-! ## Numbers of 32 bits

Ids of devices and knobs are read alike, and differ in what is said of a number that is too large. -/

/-- What is wrong with a number that does not fit 32 bits. -/
inductive WordFault (field excess : String) (value : Int64) : Fault → Prop where
  | negative (h : value < 0) : WordFault field excess value (.negative field value)
  | large (h : 2 ^ 32 ≤ value.toInt) : WordFault field excess value (.outOfRange field excess)

section wordOf

variable {field excess : String} {value : Int64} {n : UInt32}

/-- The conversion `wordOf` gives a word exactly if the word is the number. A number that is not
below zero and less than `2 ^ 32` keeps its value on the way through the unsigned types. -/
theorem wordOf_eq_ok_iff : wordOf field excess value = .ok n ↔ (n.toNat : Int) = value.toInt := by
  have hbound : n.toNat < UInt32.size := n.toNat_lt
  unfold wordOf
  split
  · next hneg =>
    have hlt : value.toInt < 0 := Int64.lt_iff_toInt_lt.mp hneg
    constructor
    · intro h
      cases h
    · intro h
      omega
  · next hneg =>
    have hle : 0 ≤ value.toInt := Int64.le_iff_toInt_le.mp (Int64.not_lt.mp hneg)
    split
    · next hfits =>
      have hsame : (UInt32.ofNat value.toInt.toNat).toNat = value.toInt.toNat :=
        UInt32.toNat_ofNat_of_lt hfits
      constructor
      · intro h
        cases h
        omega
      · intro h
        have hn : n = UInt32.ofNat value.toInt.toNat := UInt32.toNat_inj.mp (by omega)
        rw [hn]
    · next hlarge =>
      constructor
      · intro h
        cases h
      · intro h
        omega

theorem word_unique {n' : UInt32} (h : (n.toNat : Int) = value.toInt)
    (h' : (n'.toNat : Int) = value.toInt) : n = n' :=
  UInt32.toNat_inj.mp (Int.ofNat_inj.mp (h.trans h'.symm))

/-- The numbers that a word can hold. -/
theorem exists_word_iff :
    (∃ n : UInt32, (n.toNat : Int) = value.toInt) ↔ 0 ≤ value.toInt ∧ value.toInt < 2 ^ 32 := by
  constructor
  · rintro ⟨n, hn⟩
    have := n.toNat_lt
    omega
  · intro h
    refine ⟨UInt32.ofNat value.toInt.toNat, ?_⟩
    rw [UInt32.toNat_ofNat_of_lt' (by simp only [UInt32.size]; omega)]
    exact Int.toNat_of_nonneg h.1

/-- What `wordOf` reports is the one of the two faults that the number has. The cases are its own:
the number is negative, or it fits, or it is too large. -/
theorem wordOf_reports : Reports (wordOf field excess value) (WordFault field excess value) := by
  intro fault
  unfold wordOf
  split
  · next hneg =>
    constructor
    · rintro ⟨⟩
      exact .negative hneg
    · rintro (_ | hlarge)
      · rfl
      · have hlt : value.toInt < 0 := Int64.lt_iff_toInt_lt.mp hneg
        omega
  · next hneg =>
    have hle : 0 ≤ value.toInt := Int64.le_iff_toInt_le.mp (Int64.not_lt.mp hneg)
    have hsize : UInt32.size = 2 ^ 32 := rfl
    split
    · next hfits =>
      constructor
      · rintro ⟨⟩
      · rintro (hneg' | hlarge)
        · exact absurd hneg' hneg
        · omega
    · next hlarge =>
      constructor
      · rintro ⟨⟩
        exact .large (by omega)
      · rintro (hneg' | _)
        · exact absurd hneg' hneg
        · rfl

end wordOf

/-! ## Building -/

/-- What is kept of the calibration follows from the precisions and the calibrator, and the lowering
from it. -/
structure Settings.Derived (s : Settings) : Prop where
  calibrationMode_eq : s.calibrationMode = .derive s.int8Enabled s.calibrator.isSome
  lowering_eq : s.lowering = s.calibrationMode.lowering

/-- Settings with the same precisions and the same calibrator, in which the rest was derived from
these, keep the same calibration mode and the same lowering. -/
theorem Settings.Derived.ext {s s' : Settings} (h : s.Derived) (h' : s'.Derived)
    (hprecisions : s.precisions = s'.precisions) (hcalibrator : s.calibrator = s'.calibrator) :
    s.calibrationMode = s'.calibrationMode ∧ s.lowering = s'.lowering := by
  have hmode : s.calibrationMode = s'.calibrationMode := by
    rw [h.calibrationMode_eq, h'.calibrationMode_eq, int8Enabled, int8Enabled, hprecisions,
      hcalibrator]
  refine ⟨hmode, ?_⟩
  rw [h.lowering_eq, h'.lowering_eq, hmode]

namespace Draft

/-- A low-power core, where it is needed. -/
def Compatible (capability : Capability) (device : Device) : Prop :=
  capability = .safeDla → device.kind = .auxiliary

/-- A draft that can be built. -/
structure Buildable (d : Draft) : Prop where
  inputs : d.inputs ≠ []
  /-- They may be unset, but not set to nothing. -/
  precisions : d.precisions ≠ some []
  workspaceSize : 0 ≤ d.workspaceSize.toInt ∧ d.workspaceSize.toInt < 2 ^ 63
  minTimingIters : 0 ≤ d.minTimingIters.toInt ∧ d.minTimingIters.toInt < 2 ^ 32
  avgTimingIters : 0 ≤ d.avgTimingIters.toInt ∧ d.avgTimingIters.toInt < 2 ^ 32
  maxBatchSize : 0 ≤ d.maxBatchSize.toInt ∧ d.maxBatchSize.toInt < 2 ^ 32
  compatible : Compatible d.capability d.device

/-- Settings store what a draft holds: the same numbers, and the precisions as a set. -/
structure StoredIn (d : Draft) (s : Settings) : Prop where
  inputs : s.inputs = d.inputs
  mem_precisions : ∀ t, t ∈ s.precisions ↔ t ∈ d.precisions.getD [.float]
  /-- Each once, and in their order. -/
  precisions_inOrder : s.precisions.Sublist ElementType.all
  device : s.device = d.device
  fallback : s.fallback = d.fallback
  capability : s.capability = d.capability
  workspaceSize : (s.workspaceSize.toNat : Int) = d.workspaceSize.toInt
  minTimingIters : (s.minTimingIters.toNat : Int) = d.minTimingIters.toInt
  avgTimingIters : (s.avgTimingIters.toNat : Int) = d.avgTimingIters.toInt
  maxBatchSize : (s.maxBatchSize.toNat : Int) = d.maxBatchSize.toInt
  flags : s.flags = d.flags
  calibrator : s.calibrator = d.calibrator
  derived : s.Derived

/-! ### Knobs -/

/-- A size is stored as the same number, unless it is below zero: what a signed word can hold from
zero on fits an unsigned one. -/
theorem sizeOf_eq_ok_iff {field : String} {value : Int64} {n : UInt64} :
    sizeOf field value = .ok n ↔ (n.toNat : Int) = value.toInt := by
  unfold sizeOf
  split
  · next hneg =>
    have hlt : value.toInt < 0 := Int64.lt_iff_toInt_lt.mp hneg
    constructor
    · intro h
      cases h
    · intro h
      omega
  · next hneg =>
    have hle : 0 ≤ value := Int64.not_lt.mp hneg
    have hle' : 0 ≤ value.toInt := Int64.le_iff_toInt_le.mp hle
    have hsame : (value.toUInt64.toNat : Int) = value.toInt := by
      rw [Int64.toNat_toUInt64_of_le hle]
      show (value.toInt.toNat : Int) = value.toInt
      omega
    constructor
    · intro h
      cases h
      exact hsame
    · intro h
      have hn : n = value.toUInt64 := UInt64.toNat_inj.mp (by omega)
      rw [hn]

theorem size_unique {value : Int64} {n n' : UInt64} (h : (n.toNat : Int) = value.toInt)
    (h' : (n'.toNat : Int) = value.toInt) : n = n' :=
  UInt64.toNat_inj.mp (Int.ofNat_inj.mp (h.trans h'.symm))

/-- A count is stored as the same number, or not at all; `countOf` is `wordOf` with its own text for
a number that is too large. -/
theorem countOf_eq_ok_iff {field : String} {value : Int64} {n : UInt32} :
    countOf field value = .ok n ↔ (n.toNat : Int) = value.toInt :=
  wordOf_eq_ok_iff

/-- The check of the capability passes exactly what is `Compatible`. -/
theorem checkCapability_eq_ok_iff {capability : Capability} {device : Device} :
    checkCapability capability device = .ok () ↔ Compatible capability device := by
  unfold checkCapability Compatible
  split
  · next h => exact ⟨fun hok => (by cases hok), fun hfits => absurd (hfits h.1) h.2⟩
  · next h =>
    refine ⟨fun _ hsafe => ?_, fun _ => rfl⟩
    exact Decidable.byContradiction fun hkind => h ⟨hsafe, hkind⟩

/-! ### Precisions -/

theorem mem_inOrder {precisions : List ElementType} {t : ElementType} :
    t ∈ inOrder precisions ↔ t ∈ precisions := by
  simp [inOrder, ElementType.mem_all]

/-- A set of precisions is what its members are. -/
theorem precisions_ext {ps qs : List ElementType} (hp : ps.Sublist ElementType.all)
    (hq : qs.Sublist ElementType.all) (h : ∀ t, t ∈ ps ↔ t ∈ qs) : ps = qs := by
  have horder : ElementType.all.Pairwise (fun a b => a.rank < b.rank) := by decide
  have hnodup : ElementType.all.Nodup := by decide
  have hperm : ps.Perm qs :=
    (List.perm_ext_iff_of_nodup (hnodup.sublist hp) (hnodup.sublist hq)).mpr h
  refine hperm.eq_of_pairwise (fun a b _ _ hab hba => ?_) (horder.sublist hp) (horder.sublist hq)
  exact absurd hba (Nat.lt_asymm hab)

/-- Put in order, each precision stands once and where `ElementType.all` has it. -/
theorem inOrder_sublist (precisions : List ElementType) :
    (inOrder precisions).Sublist ElementType.all :=
  List.filter_sublist

/-- The precisions of a draft, whether they were set or not: a draft in which they were not set uses
`float` alone. -/
theorem mem_effectivePrecisions {d : Draft} {t : ElementType} :
    t ∈ d.effectivePrecisions ↔ t ∈ d.precisions.getD [.float] := by
  unfold effectivePrecisions
  cases d.precisions with
  | none => rfl
  | some precisions => exact mem_inOrder

theorem effectivePrecisions_sublist (d : Draft) :
    d.effectivePrecisions.Sublist ElementType.all := by
  unfold effectivePrecisions
  cases d.precisions with
  | none => decide
  | some precisions => exact inOrder_sublist precisions

/-- A draft has a precision unless they were set to nothing. -/
theorem effectivePrecisions_ne_nil_iff {d : Draft} :
    d.effectivePrecisions ≠ [] ↔ d.precisions ≠ some [] := by
  have hmem := @mem_effectivePrecisions d
  cases hset : d.precisions with
  | none =>
    rw [hset] at hmem
    exact ⟨fun _ h => (by cases h), fun _ => List.ne_nil_of_mem ((hmem (t := .float)).mpr (by simp))⟩
  | some precisions =>
    rw [hset] at hmem
    cases precisions with
    | nil =>
      refine ⟨fun hne => ?_, fun h => absurd rfl h⟩
      obtain ⟨t, ht⟩ := List.exists_mem_of_ne_nil _ hne
      exact absurd (hmem.mp ht) List.not_mem_nil
    | cons t rest =>
      refine ⟨fun _ h => (by cases h), fun _ => ?_⟩
      exact List.ne_nil_of_mem (hmem.mpr List.mem_cons_self)

/-! ### The whole -/

/-- Settings are determined by the draft that they store. -/
theorem StoredIn.ext {d : Draft} {s s' : Settings} (h : d.StoredIn s) (h' : d.StoredIn s') :
    s = s' := by
  have hprecisions : s.precisions = s'.precisions :=
    precisions_ext h.precisions_inOrder h'.precisions_inOrder fun t =>
      (h.mem_precisions t).trans (h'.mem_precisions t).symm
  have hcalibrator := h.calibrator.trans h'.calibrator.symm
  -- what is kept of the calibration follows from fields that agree
  obtain ⟨hmode, hlowering⟩ := h.derived.ext h'.derived hprecisions hcalibrator
  exact Settings.ext (h.inputs.trans h'.inputs.symm) hprecisions (h.device.trans h'.device.symm)
    (h.fallback.trans h'.fallback.symm) (h.capability.trans h'.capability.symm)
    (size_unique h.workspaceSize h'.workspaceSize) (word_unique h.minTimingIters h'.minTimingIters)
    (word_unique h.avgTimingIters h'.avgTimingIters) (word_unique h.maxBatchSize h'.maxBatchSize)
    (h.flags.trans h'.flags.symm) hcalibrator hmode hlowering

/-- What a draft comes to that can be built. Each of the conditions of `Buildable` opens one step of
`Draft.build`, and the calibration mode and the lowering are stored as `Settings.Derived` has them.
-/
theorem Buildable.exists_build {d : Draft} (h : d.Buildable) :
    ∃ s, d.build = .ok s ∧ d.StoredIn s := by
  have hworkspace : ((UInt64.ofNat d.workspaceSize.toInt.toNat).toNat : Int) =
      d.workspaceSize.toInt := by
    have := h.workspaceSize
    rw [UInt64.toNat_ofNat_of_lt' (by simp only [UInt64.size]; omega)]
    exact Int.toNat_of_nonneg h.workspaceSize.1
  obtain ⟨minTimingIters, hmin⟩ := exists_word_iff.mpr h.minTimingIters
  obtain ⟨avgTimingIters, havg⟩ := exists_word_iff.mpr h.avgTimingIters
  obtain ⟨maxBatchSize, hbatch⟩ := exists_word_iff.mpr h.maxBatchSize
  let mode := CalibrationMode.derive (d.effectivePrecisions.contains .int8) d.calibrator.isSome
  refine ⟨⟨d.inputs, d.effectivePrecisions, d.device, d.fallback, d.capability, _, _, _, _, d.flags,
    d.calibrator, mode, mode.lowering⟩, ?_, rfl, fun t => mem_effectivePrecisions,
    effectivePrecisions_sublist d, rfl, rfl, rfl, hworkspace, hmin, havg, hbatch, rfl, rfl,
    ⟨rfl, rfl⟩⟩
  unfold build
  rw [guard_eq_ok_iff, guard_eq_ok_iff]
  refine ⟨by simpa using h.inputs, ?_, ?_⟩
  · simpa using effectivePrecisions_ne_nil_iff.mpr h.precisions
  · rw [sizeOf_eq_ok_iff.mpr hworkspace, countOf_eq_ok_iff.mpr hmin, countOf_eq_ok_iff.mpr havg,
      countOf_eq_ok_iff.mpr hbatch, checkCapability_eq_ok_iff.mpr h.compatible]
    rfl

/-- A draft that was built is one that can be built. Each bind of `Draft.build` that was passed is
one condition of `Buildable`. -/
theorem buildable_of_build {d : Draft} {s : Settings} (h : d.build = .ok s) : d.Buildable := by
  unfold build at h
  rw [guard_eq_ok_iff, guard_eq_ok_iff] at h
  obtain ⟨hinputs, hprecisions, h⟩ := h
  obtain ⟨workspace, hworkspace, h⟩ := bind_eq_ok_iff.mp h
  obtain ⟨minIters, hmin, h⟩ := bind_eq_ok_iff.mp h
  obtain ⟨avgIters, havg, h⟩ := bind_eq_ok_iff.mp h
  obtain ⟨batch, hbatch, h⟩ := bind_eq_ok_iff.mp h
  obtain ⟨_, hcapability, -⟩ := bind_eq_ok_iff.mp h
  have hsize := sizeOf_eq_ok_iff.mp hworkspace
  exact {
    inputs := by simpa using hinputs
    precisions := effectivePrecisions_ne_nil_iff.mp (by simpa using hprecisions)
    workspaceSize := ⟨by omega, d.workspaceSize.toInt_lt⟩
    minTimingIters := exists_word_iff.mp ⟨_, countOf_eq_ok_iff.mp hmin⟩
    avgTimingIters := exists_word_iff.mp ⟨_, countOf_eq_ok_iff.mp havg⟩
    maxBatchSize := exists_word_iff.mp ⟨_, countOf_eq_ok_iff.mp hbatch⟩
    compatible := checkCapability_eq_ok_iff.mp hcapability }

/-- A draft is built when nothing is wrong with it, and the settings then store what it holds. -/
theorem build_eq_ok_iff {d : Draft} {s : Settings} :
    d.build = .ok s ↔ d.Buildable ∧ d.StoredIn s := by
  constructor
  · intro h
    have hbuildable := buildable_of_build h
    obtain ⟨s', hs', hstored⟩ := hbuildable.exists_build
    obtain rfl : s = s' := Except.ok.inj (h.symm.trans hs')
    exact ⟨hbuildable, hstored⟩
  · rintro ⟨hbuildable, hstored⟩
    obtain ⟨s', hs', hstored'⟩ := hbuildable.exists_build
    rw [hs', hstored.ext hstored']

end Draft

/-- The settings of a request are what its draft builds; the error type is changed on the way, and
nothing else. -/
theorem Request.toSettings_eq_ok_iff {r : Request} {s : Settings} :
    r.toSettings = .ok s ↔ ∃ d, r.toDraft = .ok d ∧ d.build = .ok s := by
  unfold toSettings
  rw [mapError_eq_ok_iff]
  exact bind_eq_ok_iff

/-! ## What holds of settings on every path -/

namespace Settings

/-- What is checked before settings are made, and what is made of it. -/
structure Coherent (s : Settings) : Prop where
  inputs_ne_nil : s.inputs ≠ []
  precisions_ne_nil : s.precisions ≠ []
  /-- Each once, and in their order. -/
  precisions_inOrder : s.precisions.Sublist ElementType.all
  workspaceSize_lt : s.workspaceSize.toNat < 2 ^ 63
  compatible : Draft.Compatible s.capability s.device
  derived : s.Derived

/-- The lowering and the calibration mode that settings keep, and those that a backend is told, are
the ones that the precisions and the calibrator ask for. -/
structure Agrees (s : Settings) : Prop where
  unfreezeModule_iff :
    s.lowering.unfreezeModule = true ↔ .int8 ∈ s.precisions ∧ s.calibrator = none
  disableCse_eq : s.lowering.disableCse = s.lowering.unfreezeModule
  quantizationAware_iff :
    s.calibrationMode = .quantizationAware ↔ .int8 ∈ s.precisions ∧ s.calibrator = none
  notRequired_iff : s.calibrationMode = .notRequired ↔ .int8 ∉ s.precisions
  options_lowering : (EngineOptions.ofSettings s).lowering = s.lowering
  options_calibrationMode : (EngineOptions.ofSettings s).calibrationMode = s.calibrationMode
  /-- A backend gets the calibrator only with int8. -/
  usedCalibrator_iff :
    ∀ c, s.usedCalibrator = some c ↔ .int8 ∈ s.precisions ∧ s.calibrator = some c
  options_calibratorName :
    (EngineOptions.ofSettings s).calibratorName = s.usedCalibrator.map Calibrator.name

theorem int8Enabled_iff {s : Settings} : s.int8Enabled = true ↔ .int8 ∈ s.precisions :=
  List.contains_iff_mem

/-- Where what is kept follows from the precisions and the calibrator, nothing disagrees. -/
theorem Derived.agrees {s : Settings} (h : s.Derived) : s.Agrees := by
  have hused : ∀ c, s.usedCalibrator = some c ↔ .int8 ∈ s.precisions ∧ s.calibrator = some c := by
    intro c
    rw [← int8Enabled_iff]
    unfold usedCalibrator
    cases s.int8Enabled <;> simp
  have hfacts : (s.lowering.unfreezeModule = true ↔ s.int8Enabled = true ∧ s.calibrator = none) ∧
      s.lowering.disableCse = s.lowering.unfreezeModule ∧
      (s.calibrationMode = .quantizationAware ↔ s.int8Enabled = true ∧ s.calibrator = none) ∧
      (s.calibrationMode = .notRequired ↔ ¬s.int8Enabled = true) := by
    rw [h.lowering_eq, h.calibrationMode_eq]
    cases s.int8Enabled <;> cases s.calibrator <;>
      simp [CalibrationMode.derive, CalibrationMode.lowering, LoweringMode.default]
  rw [int8Enabled_iff] at hfacts
  exact ⟨hfacts.1, hfacts.2.1, hfacts.2.2.1, hfacts.2.2.2, rfl, rfl, hused, rfl⟩

/-- What is built is coherent. Each field is a condition of `Buildable` or a field of `StoredIn`, so
it holds on every path that ends with `Draft.build`. -/
theorem coherent_of_build {d : Draft} {s : Settings} (h : d.build = .ok s) : s.Coherent := by
  obtain ⟨hbuildable, hstored⟩ := Draft.build_eq_ok_iff.mp h
  have hworkspace := hstored.workspaceSize
  have hbound := hbuildable.workspaceSize
  have hset := hstored.mem_precisions
  refine ⟨hstored.inputs ▸ hbuildable.inputs, ?_, hstored.precisions_inOrder, by omega, ?_,
    hstored.derived⟩
  · intro hnone
    rw [hnone] at hset
    cases hprecisions : d.precisions with
    | none => simp [hprecisions] at hset
    | some precisions =>
      have hne : precisions ≠ [] := fun hnil => hbuildable.precisions (hnil ▸ hprecisions)
      obtain ⟨t, ht⟩ := List.exists_mem_of_ne_nil _ hne
      have : t ∈ ([] : List ElementType) := (hset t).mpr (by rwa [hprecisions])
      exact absurd this List.not_mem_nil
  · rw [hstored.capability, hstored.device]
    exact hbuildable.compatible

/-- A draft of settings stores what they hold. -/
theorem toDraft_storedIn {s : Settings} (h : s.Coherent) : s.toDraft.StoredIn s := by
  have hknob : ∀ n : UInt32, (n.toNat : Int) = (Int64.ofNat n.toNat).toInt := by
    intro n
    have := n.toNat_lt
    rw [Int64.toInt_ofNat_of_lt (by omega)]
  have hworkspace : (s.workspaceSize.toNat : Int) = s.workspaceSize.toInt64.toInt := by
    have hbound := h.workspaceSize_lt
    have hbits : s.workspaceSize.toBitVec.toNat = s.workspaceSize.toNat := rfl
    exact (BitVec.toInt_eq_toNat_of_lt (by omega)).symm
  exact ⟨rfl, fun t => Iff.rfl, h.precisions_inOrder, rfl, rfl, rfl, hworkspace, hknob _, hknob _,
    hknob _, rfl, rfl, h.derived⟩

/-- A draft of coherent settings can be built, since what was checked when they were made still
holds. -/
theorem toDraft_buildable {s : Settings} (h : s.Coherent) : s.toDraft.Buildable := by
  have hstored := toDraft_storedIn h
  have := hstored.workspaceSize
  have := hstored.minTimingIters
  have := hstored.avgTimingIters
  have := hstored.maxBatchSize
  have := s.minTimingIters.toNat_lt
  have := s.avgTimingIters.toNat_lt
  have := s.maxBatchSize.toNat_lt
  have := h.workspaceSize_lt
  exact {
    inputs := h.inputs_ne_nil
    precisions := fun hnil => h.precisions_ne_nil (Option.some.inj hnil)
    workspaceSize := by omega
    minTimingIters := by omega
    avgTimingIters := by omega
    maxBatchSize := by omega
    compatible := h.compatible }

/-- A draft of settings builds the same settings again. -/
theorem build_toDraft {s : Settings} (h : s.Coherent) : s.toDraft.build = .ok s :=
  Draft.build_eq_ok_iff.mpr ⟨toDraft_buildable h, toDraft_storedIn h⟩

/-- Every path ends with a draft that is built. -/
theorem Obtainable.exists_build {s : Settings} (h : s.Obtainable) :
    ∃ d : Draft, d.build = .ok s := by
  cases h with
  | built edits h => exact ⟨_, h⟩
  | derived hs edits h => exact ⟨_, h⟩
  | requested r h =>
    obtain ⟨d, -, hbuild⟩ := Request.toSettings_eq_ok_iff.mp h
    exact ⟨d, hbuild⟩

theorem Obtainable.coherent {s : Settings} (h : s.Obtainable) : s.Coherent := by
  obtain ⟨d, hbuild⟩ := h.exists_build
  exact coherent_of_build hbuild

/-- To give settings a calibrator is to edit a draft of them. -/
theorem Obtainable.withCalibrator {s s' : Settings} {c : Calibrator} (h : s.Obtainable)
    (hs' : s.withCalibrator c = .ok s') : s'.Obtainable :=
  .derived h [.calibrator c] hs'

/-- Settings with another calibrator, and with the calibration mode and the lowering that go with
it. -/
def calibratedBy (s : Settings) (c : Calibrator) : Settings :=
  let mode := CalibrationMode.derive s.int8Enabled true
  { s with calibrator := some c, calibrationMode := mode, lowering := mode.lowering }

/-- Nothing is wrong with settings that are given a calibrator, and nothing else of them changes. -/
theorem withCalibrator_eq_ok {s : Settings} (h : s.Coherent) (c : Calibrator) :
    s.withCalibrator c = .ok (s.calibratedBy c) := by
  have hcoherent : (s.calibratedBy c).Coherent :=
    ⟨h.inputs_ne_nil, h.precisions_ne_nil, h.precisions_inOrder, h.workspaceSize_lt, h.compatible,
      ⟨rfl, rfl⟩⟩
  exact build_toDraft hcoherent

/-- On whichever path settings are made, they have inputs and precisions, a device that fits their
capability, and one lowering that follows from the precisions and the calibrator; and a draft of
them builds them again. Every draft with nothing wrong can be built, and what it holds is stored. -/
theorem sound_on_every_path :
    (∀ s : Settings, s.Obtainable → s.Coherent ∧ s.Agrees ∧ s.toDraft.build = .ok s) ∧
      ∀ d : Draft, d.Buildable → ∃ s, d.build = .ok s ∧ d.StoredIn s := by
  refine ⟨fun s hs => ?_, fun d hd => hd.exists_build⟩
  have hcoherent := hs.coherent
  exact ⟨hcoherent, hcoherent.derived.agrees, build_toDraft hcoherent⟩

/-! ## An instance

The settings of a request for int8 get a calibrator, and lose it again in a draft of them that also
has the largest knobs. -/

/-- A request for int8 beside half precision, one of its names in capitals with a blank behind. -/
def int8Request : Request :=
  { Request.default with
    precisions := ["int8", "FP16 "]
    inputs := [{ InputEntry.default with shape := some [1, 16] }] }

/-- The settings that the request describes, with all that its defaults add. -/
def int8Settings : Settings :=
  { inputs := [⟨.fixed [1, 16], .float, .contiguous, rfl⟩], precisions := [.half, .int8],
    device := .default, fallback := .disabled, capability := .standard, workspaceSize := 0,
    minTimingIters := 2, avgTimingIters := 1, maxBatchSize := 0, flags := .off,
    calibrator := none, calibrationMode := .quantizationAware, lowering := ⟨true, true⟩ }

/-- What is done to a draft of the settings with a calibrator. -/
def uncalibrated : List Draft.Edit :=
  [.clearCalibrator, .knob .workspaceSize 9223372036854775807, .knob .minTimingIters 4294967295]

/-- The settings without a calibrator and with the largest knobs that can be stored. -/
def largestSettings : Settings :=
  { int8Settings with workspaceSize := 9223372036854775807, minTimingIters := 4294967295 }

/-- Settings that got a calibrator and lost it again are on a path: they are coherent, and int8
without data asks for quantization-aware training once more. -/
theorem sound_on_every_path_uncalibrated :
    let calibrated := int8Settings.calibratedBy (.ofCache "samples" 1 none)
    int8Request.toSettings = .ok int8Settings ∧
      int8Settings.withCalibrator (.ofCache "samples" 1 none) = .ok calibrated ∧
      (calibrated.toDraft.editAll uncalibrated).build = .ok largestSettings ∧
      largestSettings.Obtainable ∧
      (largestSettings.Coherent ∧ largestSettings.Agrees ∧
        largestSettings.toDraft.build = .ok largestSettings) ∧
      calibrated.lowering = .default ∧ largestSettings.lowering = ⟨true, true⟩ ∧
      largestSettings.toDraft.Buildable ∧
      ∃ s, largestSettings.toDraft.build = .ok s ∧ largestSettings.toDraft.StoredIn s := by
  intro calibrated
  have hrequest : int8Request.toSettings = .ok int8Settings := by rfl
  have hcalibrated : int8Settings.withCalibrator (.ofCache "samples" 1 none) = .ok calibrated := by
    rfl
  have hbuild : (calibrated.toDraft.editAll uncalibrated).build = .ok largestSettings := by rfl
  have hpath : largestSettings.Obtainable :=
    .derived ((Obtainable.requested int8Request hrequest).withCalibrator hcalibrated) uncalibrated
      hbuild
  have hbuildable := toDraft_buildable hpath.coherent
  exact ⟨hrequest, hcalibrated, hbuild, hpath, sound_on_every_path.1 _ hpath, rfl, rfl, hbuildable,
    sound_on_every_path.2 _ hbuildable⟩

end Settings

end HybridCompile
