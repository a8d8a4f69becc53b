import HybridCompile.Proofs.Request.Parts

/-!
# HybridCompile — what a request describes

A request describes one set of settings, or it is at fault. Its parts are looked at in a fixed order
and of several faults the first one is named; what the parts have to do with each other, and whether
there is an input and a precision at all, comes last.

* `Draft.checks`, `Request.checks` — the faults, in their order.
* `Request.Acceptable`, `Request.Describes` — requests without one, and what they say.
* `toSettings_describes` — the whole.
-/

namespace HybridCompile

/-! ## Drafts -/

namespace Draft

/-- What a draft is checked for, in this order. -/
def checks (d : Draft) : List (Fault → Prop) :=
  [fun fault => d.inputs = [] ∧ fault = .empty "inputs",
   fun fault => d.precisions = some [] ∧ fault = .empty "enabled_precisions",
   fun fault => d.workspaceSize < 0 ∧ fault = .negative "workspace_size" d.workspaceSize,
   WordFault "num_min_timing_iters" s!"{d.minTimingIters} exceeds 4294967295" d.minTimingIters,
   WordFault "num_avg_timing_iters" s!"{d.avgTimingIters} exceeds 4294967295" d.avgTimingIters,
   WordFault "max_batch_size" s!"{d.maxBatchSize} exceeds 4294967295" d.maxBatchSize,
   fun fault => ¬Compatible d.capability d.device ∧ fault = .incompatible "capability"
     s!"{d.capability.label} requires a DLA device, got {d.device.kind.label}"]

variable {d : Draft} {field : String} {value : Int64} {capability : Capability} {device : Device}

theorem sizeOf_reports : Reports (sizeOf field value)
    (fun fault => value < 0 ∧ fault = .negative field value) := by
  intro fault
  unfold sizeOf
  split
  · next hneg => simp [hneg, eq_comm]
  · next hneg => simp [hneg]

theorem countOf_reports : Reports (countOf field value)
    (WordFault field s!"{value} exceeds 4294967295" value) :=
  wordOf_reports

theorem checkCapability_reports : Reports (checkCapability capability device)
    (fun fault => ¬Compatible capability device ∧ fault = .incompatible "capability"
      s!"{capability.label} requires a DLA device, got {device.kind.label}") := by
  intro fault
  rw [← checkCapability_eq_ok_iff, checkCapability]
  split
  · simp [eq_comm]
  · simp

/-- A draft is left without a precision only where they were set to nothing, as the default is used
where they were not set. -/
theorem effectivePrecisions_eq_nil_iff : d.effectivePrecisions = [] ↔ d.precisions = some [] :=
  not_iff_not.mp effectivePrecisions_ne_nil_iff

/-- What `Draft.build` reports is the first of `Draft.checks` that fails. Each bind of the
definition is one check. -/
theorem build_reports : Reports d.build (FirstOf d.checks) := by
  unfold build
  simp only [List.isEmpty_iff, effectivePrecisions_eq_nil_iff]
  refine Reports.guard fun _ => Reports.guard fun _ => ?_
  refine sizeOf_reports.bind fun workspaceSize _ => ?_
  refine countOf_reports.bind fun minTimingIters _ => ?_
  refine countOf_reports.bind fun avgTimingIters _ => ?_
  refine countOf_reports.bind fun maxBatchSize _ => ?_
  exact checkCapability_reports.bind fun _ _ => Reports.ok _

end Draft

/-! ## Requests -/

namespace Request

/-- Entry number `i` is `e`, and no entry before it is at fault. -/
structure Reaches (entries : List InputEntry) (i : Nat) (e : InputEntry) : Prop where
  entry : entries[i]? = some e
  ahead : ∀ j < i, ∀ e', entries[j]? = some e' → e'.Acceptable

/-- The fault of the first entry that has one, found inside that entry. -/
inductive InputsFault (entries : List InputEntry) : Fault → Prop where
  | entry {i : Nat} {e : InputEntry} {own : Fault} (he : Reaches entries i e)
      (h : FirstOf e.checks own) : InputsFault entries (own.within s!"inputs[{i}]")

/-- The first name of a precision that is unknown. -/
def PrecisionsFault (names : List String) (fault : Fault) : Prop :=
  ∃ name, IsFirst ElementType.names.Unknown names name ∧ fault = .unknownName "dtype" name

/-- What a request is checked for, in this order: its parts, and then what they come to together. -/
def checks (r : Request) : List (Fault → Prop) :=
  [InputsFault r.inputs, PrecisionsFault r.precisions, FirstOf r.device.checks,
   FirstOf r.fallback.checks, Capability.names.UnknownName r.capability,
   fun fault => r.inputs = [] ∧ fault = .empty "inputs",
   fun fault => r.precisions = [] ∧ fault = .empty "enabled_precisions",
   fun fault => r.workspaceSize < 0 ∧ fault = .negative "workspace_size" r.workspaceSize,
   WordFault "num_min_timing_iters" s!"{r.minTimingIters} exceeds 4294967295" r.minTimingIters,
   WordFault "num_avg_timing_iters" s!"{r.avgTimingIters} exceeds 4294967295" r.avgTimingIters,
   WordFault "max_batch_size" s!"{r.maxBatchSize} exceeds 4294967295" r.maxBatchSize,
   fun fault => Capability.names.Spells r.capability .safeDla ∧
     ¬DeviceKind.names.Spells r.device.deviceType .auxiliary ∧
     fault = .incompatible "capability" "Safe DLA requires a DLA device, got GPU"]

/-- A request whose parts are all in order and go together. -/
structure Acceptable (r : Request) : Prop where
  inputs : ∀ e ∈ r.inputs, e.Acceptable
  precisions : ∀ name ∈ r.precisions, ∃ t, ElementType.names.Spells name t
  device : r.device.Acceptable
  fallback : r.fallback.Acceptable
  capability : ∃ c, Capability.names.Spells r.capability c
  inputs_ne_nil : r.inputs ≠ []
  precisions_ne_nil : r.precisions ≠ []
  workspaceSize : 0 ≤ r.workspaceSize.toInt
  minTimingIters : 0 ≤ r.minTimingIters.toInt ∧ r.minTimingIters.toInt < 2 ^ 32
  avgTimingIters : 0 ≤ r.avgTimingIters.toInt ∧ r.avgTimingIters.toInt < 2 ^ 32
  maxBatchSize : 0 ≤ r.maxBatchSize.toInt ∧ r.maxBatchSize.toInt < 2 ^ 32
  compatible : Capability.names.Spells r.capability .safeDla →
    DeviceKind.names.Spells r.device.deviceType .auxiliary

/-- The settings say what the request says: its inputs in order, its precisions and exclusions as
sets, and every number and flag in its place. No request has a calibrator, and the settings keep the
calibration mode and the lowering that go with none. -/
structure Describes (r : Request) (s : Settings) : Prop where
  inputs : List.Forall₂ InputEntry.Describes r.inputs s.inputs
  mem_precisions : ∀ t, t ∈ s.precisions ↔ ∃ name ∈ r.precisions, ElementType.names.Spells name t
  precisions_inOrder : s.precisions.Sublist ElementType.all
  device : r.device.Describes s.device
  fallback : r.fallback.Describes s.fallback
  capability : Capability.names.Spells r.capability s.capability
  workspaceSize : (s.workspaceSize.toNat : Int) = r.workspaceSize.toInt
  minTimingIters : (s.minTimingIters.toNat : Int) = r.minTimingIters.toInt
  avgTimingIters : (s.avgTimingIters.toNat : Int) = r.avgTimingIters.toInt
  maxBatchSize : (s.maxBatchSize.toNat : Int) = r.maxBatchSize.toInt
  flags : s.flags = r.flags
  calibrator : s.calibrator = none
  derived : s.Derived

variable {r : Request} {d : Draft} {s : Settings} {entries : List InputEntry}
  {specs : List TensorSpec} {names : List String} {fault own : Fault} {start i : Nat}
  {e : InputEntry}

/-! ### Inputs -/

/-- The walk over the inputs ends well exactly if each entry describes its input. Induction on the
entries, over all numbers to start from. -/
theorem specsFrom_eq_ok_iff :
    specsFrom start entries = .ok specs ↔ List.Forall₂ InputEntry.Describes entries specs := by
  induction entries generalizing start specs with
  | nil =>
    rw [List.forall₂_nil_left_iff, specsFrom, Except.ok.injEq]
    exact eq_comm
  | cons e rest ih =>
    rw [specsFrom, bind_eq_ok_iff]
    simp only [mapError_eq_ok_iff, bind_eq_ok_iff, InputEntry.toSpec_eq_ok_iff, ih]
    constructor
    · rintro ⟨spec, hspec, others, hothers, ⟨⟩⟩
      exact .cons hspec hothers
    · rintro (_ | ⟨hspec, hothers⟩)
      exact ⟨_, hspec, _, hothers, rfl⟩

theorem reaches_cons_zero : Reaches (e :: entries) 0 e := ⟨rfl, by simp⟩

/-- A later entry is reached past the first one, which is not at fault, and then as one of the rest.
-/
theorem reaches_cons_succ {e' : InputEntry} :
    Reaches (e :: entries) (i + 1) e' ↔ e.Acceptable ∧ Reaches entries i e' := by
  constructor
  · rintro ⟨he, hahead⟩
    obtain ⟨hfirst, hrest⟩ := Nat.forall_lt_succ_left.mp hahead
    exact ⟨hfirst e rfl, he, hrest⟩
  · rintro ⟨hfirst, he, hrest⟩
    refine ⟨he, Nat.forall_lt_succ_left.mpr ⟨?_, hrest⟩⟩
    rintro e' ⟨⟩
    exact hfirst

/-- The walk stops at the first entry that is at fault, which `Reaches` names. Induction on the
entries, over every number `start` from which they are counted. -/
theorem specsFrom_eq_error_iff :
    specsFrom start entries = .error fault ↔ ∃ i e own, Reaches entries i e ∧
      FirstOf e.checks own ∧ fault = own.within s!"inputs[{start + i}]" := by
  induction entries generalizing start with
  | nil =>
    rw [specsFrom]
    refine ⟨fun h => (by cases h), ?_⟩
    rintro ⟨i, e, own, ⟨he, -⟩, -⟩
    cases he
  | cons e rest ih =>
    rw [specsFrom, bind_eq_error_iff]
    simp only [mapError_eq_error_iff, mapError_eq_ok_iff, InputEntry.toSpec_reports _]
    constructor
    · rintro (⟨own, hown, rfl⟩ | ⟨spec, hspec, h⟩)
      · exact ⟨0, e, own, reaches_cons_zero, hown, rfl⟩
      · have hok := InputEntry.exists_describes_iff.mp ⟨spec, InputEntry.toSpec_eq_ok_iff.mp hspec⟩
        rcases bind_eq_error_iff.mp h with h | ⟨specs, -, h⟩
        · obtain ⟨i, e', own, he', hown, rfl⟩ := ih.mp h
          refine ⟨i + 1, e', own, reaches_cons_succ.mpr ⟨hok, he'⟩, hown, ?_⟩
          rw [Nat.add_assoc, Nat.add_comm 1]
        · cases h
    · rintro ⟨i, e', own, he', hown, rfl⟩
      cases i with
      | zero =>
        obtain rfl : e = e' := Option.some.inj he'.entry
        exact Or.inl ⟨own, hown, rfl⟩
      | succ i =>
        obtain ⟨hok, hrest⟩ := reaches_cons_succ.mp he'
        obtain ⟨spec, hspec⟩ := InputEntry.exists_describes_iff.mpr hok
        refine Or.inr ⟨spec, InputEntry.toSpec_eq_ok_iff.mpr hspec, bind_eq_error_iff.mpr ?_⟩
        refine Or.inl (ih.mpr ⟨i, e', own, hrest, hown, ?_⟩)
        rw [Nat.add_assoc, Nat.add_comm 1]

/-- What the walk over all inputs reports is the fault of the first entry that has one, with the
entry's number in its field. -/
theorem specs_reports : Reports (specsFrom 0 entries) (InputsFault entries) := by
  intro fault
  simp only [specsFrom_eq_error_iff, Nat.zero_add]
  constructor
  · rintro ⟨i, e, own, he, hown, rfl⟩
    exact .entry he hown
  · rintro ⟨he, hown⟩
    exact ⟨_, _, _, he, hown, rfl⟩

/-! ### Precisions -/

theorem mapM_parse_eq_ok_iff {ts : List ElementType} :
    names.mapM ElementType.parse = .ok ts ↔ List.Forall₂ ElementType.names.Spells names ts := by
  simp only [mapM_eq_ok_iff, Vocabulary.parse_eq_ok_iff]

theorem precisions_reports : Reports (names.mapM ElementType.parse) (PrecisionsFault names) := by
  intro fault
  simp only [mapM_eq_error_iff, Vocabulary.parse_reports _, Vocabulary.UnknownName, exists_and_left,
    exists_eq, and_true]
  exact exists_congr fun name => ⟨fun h => ⟨h.1, h.2.2⟩, fun h => ⟨h.1, h.1.holds, h.2⟩⟩

/-- Which precisions are read does not depend on the places of their names. Induction on the names.
-/
theorem mem_of_spelled {ts : List ElementType} (h : List.Forall₂ ElementType.names.Spells names ts)
    (t : ElementType) : t ∈ ts ↔ ∃ name ∈ names, ElementType.names.Spells name t := by
  induction h with
  | nil => simp
  | cons hname _ ih => simp [ih, Vocabulary.spells_iff hname]

/-! ### The draft of a request -/

/-- The draft holds what the parts of the request describe. -/
structure DraftedAs (r : Request) (d : Draft) : Prop where
  inputs : List.Forall₂ InputEntry.Describes r.inputs d.inputs
  precisions : ∃ ts, List.Forall₂ ElementType.names.Spells r.precisions ts ∧ d.precisions = some ts
  device : r.device.Describes d.device
  fallback : r.fallback.Acceptable ∧ r.fallback.Describes d.fallback
  capability : Capability.names.Spells r.capability d.capability
  workspaceSize : d.workspaceSize = r.workspaceSize
  minTimingIters : d.minTimingIters = r.minTimingIters
  avgTimingIters : d.avgTimingIters = r.avgTimingIters
  maxBatchSize : d.maxBatchSize = r.maxBatchSize
  flags : d.flags = r.flags
  calibrator : d.calibrator = none

/-- The conversion `Request.toDraft` succeeds with a draft exactly if the draft holds what the parts
of the request describe. -/
theorem toDraft_eq_ok_iff : r.toDraft = .ok d ↔ r.DraftedAs d := by
  unfold toDraft
  simp only [bind_eq_ok_iff, specsFrom_eq_ok_iff, mapM_parse_eq_ok_iff,
    DeviceEntry.toDevice_eq_ok_iff, FallbackEntry.toPolicy_eq_ok_iff, Vocabulary.parse_eq_ok_iff]
  constructor
  · rintro ⟨specs, hspecs, ts, hts, device, hdevice, policy, hpolicy, c, hc, ⟨⟩⟩
    exact ⟨hspecs, ⟨ts, hts, rfl⟩, hdevice, hpolicy, hc, rfl, rfl, rfl, rfl, rfl, rfl⟩
  · rintro ⟨hspecs, ⟨ts, hts, hprecisions⟩, hdevice, hpolicy, hc, hworkspace, hmin, havg, hbatch,
      hflags, hcalibrator⟩
    refine ⟨_, hspecs, ts, hts, _, hdevice, _, hpolicy, _, hc, ?_⟩
    rw [← hworkspace, ← hmin, ← havg, ← hbatch, ← hflags, ← hcalibrator, ← hprecisions]
    rfl

/-- The settings of a request are made over a draft: `DraftedAs` leads from the request to it, and
`StoredIn` from it to the settings. -/
theorem toSettings_eq_ok_iff_drafted :
    r.toSettings = .ok s ↔ ∃ d, r.DraftedAs d ∧ d.Buildable ∧ d.StoredIn s := by
  simp only [toSettings_eq_ok_iff, toDraft_eq_ok_iff, Draft.build_eq_ok_iff]

/-- Only a device that is not a low-power core can be missing one. -/
theorem DraftedAs.compatible_iff (h : r.DraftedAs d) :
    Draft.Compatible d.capability d.device ↔
      (Capability.names.Spells r.capability .safeDla →
        DeviceKind.names.Spells r.device.deviceType .auxiliary) := by
  rw [Draft.Compatible, Vocabulary.spells_iff h.capability, Vocabulary.spells_iff h.device.kind,
    eq_comm, @eq_comm _ d.device.kind]

theorem DraftedAs.inputs_eq_nil_iff (h : r.DraftedAs d) : d.inputs = [] ↔ r.inputs = [] := by
  rw [← List.length_eq_zero_iff, ← h.inputs.length_eq, List.length_eq_zero_iff]

theorem DraftedAs.precisions_eq_nil_iff (h : r.DraftedAs d) :
    d.precisions = some [] ↔ r.precisions = [] := by
  obtain ⟨ts, hts, hprecisions⟩ := h.precisions
  rw [hprecisions, Option.some.injEq, ← List.length_eq_zero_iff, ← hts.length_eq,
    List.length_eq_zero_iff]

/-- A request of which the draft can be built is acceptable: the parts are in order because there is
a draft, and they go together because it can be built. -/
theorem DraftedAs.acceptable (h : r.DraftedAs d) (hbuildable : d.Buildable) : r.Acceptable := by
  obtain ⟨ts, hts, -⟩ := h.precisions
  exact {
    inputs := fun e he =>
      InputEntry.exists_describes_iff.mp (exists_forall₂_iff.mp ⟨_, h.inputs⟩ e he)
    precisions := exists_forall₂_iff.mp ⟨ts, hts⟩
    device := DeviceEntry.exists_describes_iff.mp ⟨_, h.device⟩
    fallback := h.fallback.1
    capability := ⟨_, h.capability⟩
    inputs_ne_nil := mt h.inputs_eq_nil_iff.mpr hbuildable.inputs
    precisions_ne_nil := mt h.precisions_eq_nil_iff.mpr hbuildable.precisions
    workspaceSize := h.workspaceSize ▸ hbuildable.workspaceSize.1
    minTimingIters := h.minTimingIters ▸ hbuildable.minTimingIters
    avgTimingIters := h.avgTimingIters ▸ hbuildable.avgTimingIters
    maxBatchSize := h.maxBatchSize ▸ hbuildable.maxBatchSize
    compatible := h.compatible_iff.mp hbuildable.compatible }

theorem DraftedAs.buildable (h : r.DraftedAs d) (hr : r.Acceptable) : d.Buildable where
  inputs := mt h.inputs_eq_nil_iff.mp hr.inputs_ne_nil
  precisions := mt h.precisions_eq_nil_iff.mp hr.precisions_ne_nil
  workspaceSize := h.workspaceSize ▸ ⟨hr.workspaceSize, r.workspaceSize.toInt_lt⟩
  minTimingIters := h.minTimingIters ▸ hr.minTimingIters
  avgTimingIters := h.avgTimingIters ▸ hr.avgTimingIters
  maxBatchSize := h.maxBatchSize ▸ hr.maxBatchSize
  compatible := h.compatible_iff.mpr hr.compatible

/-- What the settings store of the draft is what the request says, field by field. -/
theorem DraftedAs.describes (h : r.DraftedAs d) (hs : d.StoredIn s) : r.Describes s where
  inputs := hs.inputs ▸ h.inputs
  mem_precisions := fun t => by
    obtain ⟨ts, hts, hprecisions⟩ := h.precisions
    rw [hs.mem_precisions, hprecisions]
    exact mem_of_spelled hts t
  precisions_inOrder := hs.precisions_inOrder
  device := hs.device ▸ h.device
  fallback := hs.fallback ▸ h.fallback.2
  capability := hs.capability ▸ h.capability
  workspaceSize := h.workspaceSize ▸ hs.workspaceSize
  minTimingIters := h.minTimingIters ▸ hs.minTimingIters
  avgTimingIters := h.avgTimingIters ▸ hs.avgTimingIters
  maxBatchSize := h.maxBatchSize ▸ hs.maxBatchSize
  flags := hs.flags.trans h.flags
  calibrator := hs.calibrator.trans h.calibrator
  derived := hs.derived

/-- An acceptable request has a draft, since each of its parts describes something. -/
theorem Acceptable.exists_drafted (h : r.Acceptable) : ∃ d, r.DraftedAs d := by
  obtain ⟨specs, hspecs⟩ := exists_forall₂_iff.mpr fun e he =>
    InputEntry.exists_describes_iff.mpr (h.inputs e he)
  obtain ⟨ts, hts⟩ := exists_forall₂_iff.mpr h.precisions
  obtain ⟨device, hdevice⟩ := DeviceEntry.exists_describes_iff.mpr h.device
  obtain ⟨policy, -, hpolicy⟩ := h.fallback.exists_toPolicy
  obtain ⟨c, hc⟩ := h.capability
  exact ⟨⟨specs, some ts, device, policy, c, _, _, _, _, _, none⟩, hspecs, ⟨ts, hts, rfl⟩, hdevice,
    ⟨h.fallback, hpolicy⟩, hc, rfl, rfl, rfl, rfl, rfl, rfl⟩

/-! ### The settings of a request -/

/-- A request describes one value of settings at most. Inputs agree one by one, precisions and
exclusions as sets, numbers as integers, and what is derived by `Settings.Derived.ext`. -/
theorem Describes.unique {s' : Settings} (h : r.Describes s) (h' : r.Describes s') : s = s' := by
  have hspecs : specsFrom 0 r.inputs = .ok s.inputs := specsFrom_eq_ok_iff.mpr h.inputs
  have hinputs : s.inputs = s'.inputs :=
    Except.ok.inj (hspecs.symm.trans (specsFrom_eq_ok_iff.mpr h'.inputs))
  have hprecisions : s.precisions = s'.precisions :=
    Draft.precisions_ext h.precisions_inOrder h'.precisions_inOrder fun t =>
      (h.mem_precisions t).trans (h'.mem_precisions t).symm
  have hdevice : s.device = s'.device :=
    Except.ok.inj ((DeviceEntry.toDevice_eq_ok_iff.mpr h.device).symm.trans
      (DeviceEntry.toDevice_eq_ok_iff.mpr h'.device))
  have hcapability : s.capability = s'.capability :=
    (Vocabulary.spells_iff h'.capability).mp h.capability
  have hcalibrator := h.calibrator.trans h'.calibrator.symm
  obtain ⟨hmode, hlowering⟩ := h.derived.ext h'.derived hprecisions hcalibrator
  exact Settings.ext hinputs hprecisions hdevice (h.fallback.unique h'.fallback) hcapability
    (Draft.size_unique h.workspaceSize h'.workspaceSize)
    (word_unique h.minTimingIters h'.minTimingIters)
    (word_unique h.avgTimingIters h'.avgTimingIters) (word_unique h.maxBatchSize h'.maxBatchSize)
    (h.flags.trans h'.flags.symm) hcalibrator hmode hlowering

theorem Acceptable.exists_settings (h : r.Acceptable) :
    ∃ s, r.toSettings = .ok s ∧ r.Describes s := by
  obtain ⟨d, hd⟩ := h.exists_drafted
  obtain ⟨s, hbuild, hstored⟩ := (hd.buildable h).exists_build
  exact ⟨s, toSettings_eq_ok_iff.mpr ⟨d, toDraft_eq_ok_iff.mpr hd, hbuild⟩, hd.describes hstored⟩

/-- A request becomes just the settings that it describes. -/
theorem toSettings_eq_ok_iff_describes : r.toSettings = .ok s ↔ r.Acceptable ∧ r.Describes s := by
  constructor
  · intro h
    obtain ⟨d, hd, hbuildable, hstored⟩ := toSettings_eq_ok_iff_drafted.mp h
    exact ⟨hd.acceptable hbuildable, hd.describes hstored⟩
  · rintro ⟨hr, hs⟩
    obtain ⟨s', hs', hdescribes⟩ := hr.exists_settings
    rw [hs', hs.unique hdescribes]

/-- The checks of the draft, in the words of the request. They are compared one by one; only the
compatibility of the capability needs the device as well. -/
theorem DraftedAs.checks_congr (h : r.DraftedAs d) :
    List.Forall₂ (fun c c' => ∀ fault, c fault ↔ c' fault) d.checks (r.checks.drop 5) := by
  simp only [Draft.checks, checks, List.drop_succ_cons, List.drop_zero, List.forall₂_cons,
    List.forall₂_nil_left_iff, h.inputs_eq_nil_iff, h.precisions_eq_nil_iff, h.workspaceSize,
    h.minTimingIters, h.avgTimingIters, h.maxBatchSize, implies_true, true_and, and_true]
  intro fault
  rw [h.compatible_iff, Classical.not_imp, and_assoc]
  refine and_congr_right fun hsafe => and_congr_right fun hkind => ?_
  have hcapability : d.capability = .safeDla := (Vocabulary.spells_iff hsafe).mp h.capability
  have hdevice : d.device.kind = .primary := by
    have hkind' := h.device.kind
    cases hd : d.device.kind with
    | primary => rfl
    | auxiliary => exact absurd (hd ▸ hkind') hkind
  rw [hcapability, hdevice]
  rfl

/-- Over both steps the first fault is the first of `Request.checks`: five checks belong to the
parts, and the others are `DraftedAs.checks_congr`. -/
theorem toDraft_bind_build_reports : Reports (r.toDraft >>= Draft.build) (FirstOf r.checks) := by
  unfold toDraft
  simp only [bind_assoc, pure_bind]
  refine specs_reports.bind fun specs hspecs => ?_
  refine precisions_reports.bind fun ts hts => ?_
  refine DeviceEntry.toDevice_reports.bind fun device hdevice => ?_
  refine FallbackEntry.toPolicy_reports.bind fun policy hpolicy => ?_
  refine Vocabulary.parse_reports.bind fun c hc => Draft.build_reports.congr fun fault => ?_
  exact FirstOf.congr (DraftedAs.checks_congr
    ⟨specsFrom_eq_ok_iff.mp hspecs, ⟨ts, mapM_parse_eq_ok_iff.mp hts, rfl⟩,
      DeviceEntry.toDevice_eq_ok_iff.mp hdevice, FallbackEntry.toPolicy_eq_ok_iff.mp hpolicy,
      Vocabulary.parse_eq_ok_iff.mp hc, rfl, rfl, rfl, rfl, rfl, rfl⟩)

/-- A request that becomes no settings ends in what the first check finds. -/
theorem toSettings_eq_error_iff {err : RequestError} :
    r.toSettings = .error err ↔ ∃ fault, FirstOf r.checks fault ∧ err = .invalid fault := by
  unfold toSettings
  rw [mapError_eq_error_iff]
  simp only [← toDraft_bind_build_reports _]
  rfl

/-- A fault inside an input is found before anything else, in the entry that is the first to have
one. -/
theorem toSettings_of_reaches (he : Reaches r.inputs i e) (hown : FirstOf e.checks own) :
    r.toSettings = .error (.invalid (own.within s!"inputs[{i}]")) :=
  toSettings_eq_error_iff.mpr ⟨_, .here (.entry he hown), rfl⟩

/-- The field of a fault inside an input is found under the input's number. -/
theorem field?_within_input (h : e.ShapeFault own) :
    ∃ field, own.field? = some field ∧
      (own.within s!"inputs[{i}]").field? = some s!"inputs[{i}].{field}" := by
  obtain ⟨field, hfield, hnamed⟩ := h.exists_field
  refine ⟨field, hfield, ?_⟩
  rw [Fault.field?_within, hfield, Option.map_some, Fault.joinPath, hnamed]
  -- the bracket and the dot after it are two texts here, and one there
  show some ("inputs[" ++ toString i ++ "]" ++ "." ++ field) =
    some ("inputs[" ++ toString i ++ ("]" ++ ".") ++ field)
  simp only [String.append_assoc]

/-- A request becomes settings exactly when all its parts are in order, and then the settings that
it describes; otherwise the first of its checks that finds a fault names it. What is wrong with the
shapes of an input is found in a field of the first entry that is at fault. -/
theorem toSettings_describes (r : Request) :
    ((∃ s, r.toSettings = .ok s) ↔ r.Acceptable) ∧
    (∀ s, r.toSettings = .ok s ↔ r.Acceptable ∧ r.Describes s) ∧
    (∀ err, r.toSettings = .error err ↔ ∃ fault, FirstOf r.checks fault ∧ err = .invalid fault) ∧
    ∀ i e own, Reaches r.inputs i e → FirstOf e.checks own →
      r.toSettings = .error (.invalid (own.within s!"inputs[{i}]")) ∧
      (e.ShapeFault own → ∃ field, own.field? = some field ∧
        (own.within s!"inputs[{i}]").field? = some s!"inputs[{i}].{field}") := by
  refine ⟨⟨?_, ?_⟩, fun s => toSettings_eq_ok_iff_describes, fun err => toSettings_eq_error_iff, ?_⟩
  · rintro ⟨s, hs⟩
    exact (toSettings_eq_ok_iff_describes.mp hs).1
  · intro hr
    obtain ⟨s, hs, -⟩ := hr.exists_settings
    exact ⟨s, hs⟩
  · intro i e own he hown
    exact ⟨toSettings_of_reaches he hown, field?_within_input⟩

/-- The range of an input whose second dimension starts above the one to optimise for. -/
def skewedEntry : InputEntry :=
  { InputEntry.default with
    minShape := some [1, 64], optShape := some [1, 32], maxShape := some [1, 128] }

/-- The second input is at fault, and no precision is known. -/
def doubtfulRequest : Request :=
  { Request.default with
    precisions := ["int7"]
    inputs := [{ InputEntry.default with shape := some [1, 16] }, skewedEntry] }

/-- Of the two faults the one in the second input is named, since inputs are looked at before
precisions. -/
theorem toSettings_describes_doubtful :
    let own : Fault := .boundsOrder "shape range" 1 64 32 128
    Reaches doubtfulRequest.inputs 1 skewedEntry ∧ FirstOf skewedEntry.checks own ∧
      doubtfulRequest.toSettings =
        .error (.invalid (.boundsOrder "inputs[1].shape range" 1 64 32 128)) ∧
      (∃ field, own.field? = some field ∧
        (own.within "inputs[1]").field? = some s!"inputs[1].{field}") ∧
      ¬doubtfulRequest.Acceptable := by
  intro own
  have hfirst : FirstOf skewedEntry.checks own := (InputEntry.toSpec_reports own).mp rfl
  have hreaches : Reaches doubtfulRequest.inputs 1 skewedEntry := by
    refine reaches_cons_succ.mpr ⟨InputEntry.exists_describes_iff.mp ?_, reaches_cons_zero⟩
    exact ⟨⟨.fixed [1, 16], .float, .contiguous, rfl⟩, InputEntry.toSpec_eq_ok_iff.mp rfl⟩
  have hshape : skewedEntry.ShapeFault own :=
    .extent .range (Extent.fault?_eq_some_iff.mp rfl)
  obtain ⟨hok, -, -, hinput⟩ := toSettings_describes doubtfulRequest
  obtain ⟨herror, hfield⟩ := hinput 1 skewedEntry own hreaches hfirst
  refine ⟨hreaches, hfirst, herror, hfield hshape, fun hacceptable => ?_⟩
  obtain ⟨s, hs⟩ := hok.mpr hacceptable
  cases herror.symm.trans hs

end Request

end HybridCompile
