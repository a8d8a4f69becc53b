import HybridCompile.Proofs.Text.Delimited
import HybridCompile.Settings.Outline

/-!
# HybridCompile — the outline loses nothing

Two settings that are shown as one text agree on all that is shown, whatever the names of excluded
operators and modules look like, as long as each stands on one line: items of a list are set in and
brackets are not, so that no item is taken for the end of its list.

* `renderDims_append_inj`, `TensorSpec.text_inj` — inputs.
* `listLines_append_inj`, `blockLines_append_inj` — lists and blocks.
* `Settings.describe_eq_iff` — the whole.
-/

namespace HybridCompile

open Text (IsNumeral append_mark_inj append_ended_inj join_ended_inj)

/-! ## Inputs -/

theorem isNumeral_of_mem_dim {d : Int64} {c : Char} (h : c ∈ (toString d).toList) : IsNumeral c :=
  Text.isNumeral_of_mem_int h

theorem toString_dim_inj {d d' : Int64} (h : toString d = toString d') : d = d' :=
  Int64.toInt_inj.mp (Text.toString_int_inj h)

theorem renderDims_eq (dims : Dims) :
    renderDims dims = "(" ++ (String.join ((dims.map toString).map (· ++ ",")) ++ ")") := by
  rw [List.map_map, ← String.append_assoc]
  rfl

/-- Dimensions are written in numerals and commas. -/
theorem isNumeral_or_comma_of_mem {dims : Dims} {c : Char}
    (h : c ∈ (String.join ((dims.map toString).map (· ++ ","))).toList) : IsNumeral c ∨ c = ',' := by
  simp only [String.toList_join, List.mem_flatMap, List.mem_map, exists_exists_and_eq_and,
    String.toList_append, List.mem_append] at h
  obtain ⟨d, -, hd | hcomma⟩ := h
  · exact Or.inl (isNumeral_of_mem_dim hd)
  · exact Or.inr (List.mem_singleton.mp hcomma)

/-- Dimensions end where they say. A dimension ends at its comma, as no numeral is one, and the list
ends at the bracket, as no dimension begins with one. -/
theorem renderDims_append_inj {dims dims' : Dims} {rest rest' : String}
    (h : renderDims dims ++ rest = renderDims dims' ++ rest') : dims = dims' ∧ rest = rest' := by
  rw [renderDims_eq, renderDims_eq] at h
  simp only [String.append_assoc, String.append_right_inj] at h
  have hclosing : ∀ dims : Dims,
      ')' ∉ (String.join ((dims.map toString).map (· ++ ","))).toList := by
    intro dims hmem
    rcases isNumeral_or_comma_of_mem hmem with (hdigit | heq) | heq
    · cases hdigit
    · cases heq
    · cases heq
  obtain ⟨hjoin, hrest⟩ := append_ended_inj rfl (hclosing dims) (hclosing dims') h
  have hcomma : ∀ dims : Dims, ∀ s ∈ dims.map toString, ',' ∉ s.toList := by
    intro dims s hs hmem
    obtain ⟨d, -, rfl⟩ := List.mem_map.mp hs
    rcases isNumeral_of_mem_dim hmem with hdigit | heq
    · cases hdigit
    · cases heq
  have hnumbers := join_ended_inj rfl (hcomma dims) (hcomma dims') hjoin
  exact ⟨(List.map_inj_right fun _ _ => toString_dim_inj).mp hnumbers, hrest⟩

/-- The shapes of an input, as they are written. -/
def Extent.shown : Extent → String
  | .fixed shape => "shape=" ++ renderDims shape
  | .range min opt max => "min_shape=" ++ (renderDims min ++ (", opt_shape=" ++
      (renderDims opt ++ (", max_shape=" ++ renderDims max))))

/-- The shapes of an input end where they say, and a shape is not taken for a range, since the two
begin with different words. -/
theorem Extent.shown_append_inj {x x' : Extent} {rest rest' : String}
    (h : x.shown ++ rest = x'.shown ++ rest') : x = x' ∧ rest = rest' := by
  cases x with
  | fixed shape =>
    cases x' with
    | fixed shape' =>
      simp only [shown, String.append_assoc, String.append_right_inj] at h
      obtain ⟨rfl, hrest⟩ := renderDims_append_inj h
      exact ⟨rfl, hrest⟩
    | range => simpa [shown] using congrArg String.toList h
  | range min opt max =>
    cases x' with
    | fixed => simpa [shown] using congrArg String.toList h
    | range min' opt' max' =>
      simp only [shown, String.append_assoc, String.append_right_inj] at h
      obtain ⟨rfl, hopt⟩ := renderDims_append_inj h
      obtain ⟨rfl, hmax⟩ := renderDims_append_inj ((String.append_right_inj _).mp hopt)
      obtain ⟨rfl, hrest⟩ := renderDims_append_inj ((String.append_right_inj _).mp hmax)
      exact ⟨rfl, hrest⟩

theorem ElementType.label_inj {t t' : ElementType} (h : t.label = t'.label) : t = t' := by
  cases t <;> cases t' <;> first | rfl | exact absurd h (by decide)

theorem ElementType.comma_notMem_label (t : ElementType) : ',' ∉ t.label.toList := by
  cases t <;> decide

theorem Layout.label_inj {l l' : Layout} (h : l.label = l'.label) : l = l' := by
  cases l <;> cases l' <;> first | rfl | exact absurd h (by decide)

namespace TensorSpec

variable {spec spec' : TensorSpec}

/-- The text of an input as one chain of pieces, associated to the right so that the pieces can be
taken off one by one. -/
theorem text_eq (spec : TensorSpec) : spec.text = "Input(" ++ (spec.extent.shown ++ (", dtype=" ++
    (spec.dtype.label ++ ("," ++ (" format=" ++ (spec.layout.label ++ ")")))))) := by
  obtain ⟨extent, dtype, layout, sound⟩ := spec
  cases extent
  · show "Input(" ++ ("shape=" ++ renderDims _) ++ ", dtype=" ++ dtype.label ++ ("," ++ " format=") ++
      layout.label ++ ")" = _
    simp only [Extent.shown, String.append_assoc]
  · show "Input(" ++ ("min_shape=" ++ renderDims _ ++ ", opt_shape=" ++ renderDims _ ++
      ", max_shape=" ++ renderDims _) ++ ", dtype=" ++ dtype.label ++ ("," ++ " format=") ++
      layout.label ++ ")" = _
    simp only [Extent.shown, String.append_assoc]

/-- An input is determined by its text: the shapes end where they say, the element type at the next
comma, and the layout is the rest up to the bracket. -/
theorem text_inj (h : spec.text = spec'.text) : spec = spec' := by
  rw [text_eq, text_eq, String.append_right_inj] at h
  obtain ⟨hextent, hnames⟩ := Extent.shown_append_inj h
  -- the label of the element type ends at the next comma
  obtain ⟨hdtype, hlayout⟩ := append_ended_inj rfl (ElementType.comma_notMem_label _)
    (ElementType.comma_notMem_label _) ((String.append_right_inj _).mp hnames)
  rw [String.append_right_inj, String.append_left_inj] at hlayout
  exact TensorSpec.ext hextent (ElementType.label_inj hdtype) (Layout.label_inj hlayout)

end TensorSpec

/-! ## Lines -/

namespace Settings

variable {key value value' line : String} {lines lines' items items' rest rest' : List String}

theorem valueLine_inj : valueLine key value = valueLine key value' ↔ value = value' :=
  String.append_right_inj _

theorem indented_inj : indented lines = indented lines' ↔ lines = lines' :=
  List.map_inj_right fun _ _ => (String.append_right_inj _).mp

/-- A line that is set in is not a closing bracket. -/
theorem ne_of_mem_indented (h : line ∈ indented lines) : line ≠ "]" ∧ line ≠ "\x7d" := by
  obtain ⟨text, -, rfl⟩ := List.mem_map.mp h
  constructor
  · intro heq
    simpa [indent] using congrArg String.toList heq
  · intro heq
    simpa [indent] using congrArg String.toList heq

/-- The items of a list, and what comes after it. -/
theorem listLines_append_inj (h : listLines key items ++ rest = listLines key items' ++ rest') :
    items = items' ∧ rest = rest' := by
  simp only [listLines, List.cons_append, List.append_assoc, List.nil_append, List.cons.injEq,
    true_and] at h
  obtain ⟨hitems, -, hrest⟩ := append_mark_inj (P := (· = "]"))
    (fun _ hline => (ne_of_mem_indented hline).1) (fun _ hline => (ne_of_mem_indented hline).1)
    rfl rfl h
  have hended := indented_inj.mp hitems
  exact ⟨(List.map_inj_right fun _ _ => (String.append_left_inj _).mp).mp hended, hrest⟩

/-- The lines of a block, and what comes after it. -/
theorem blockLines_append_inj (h : blockLines key lines ++ rest = blockLines key lines' ++ rest') :
    lines = lines' ∧ rest = rest' := by
  simp only [blockLines, List.cons_append, List.append_assoc, List.nil_append, List.cons.injEq,
    true_and] at h
  obtain ⟨hlines, -, hrest⟩ := append_mark_inj (P := (· = "\x7d"))
    (fun _ hline => (ne_of_mem_indented hline).2) (fun _ hline => (ne_of_mem_indented hline).2)
    rfl rfl h
  exact ⟨indented_inj.mp hlines, hrest⟩

/-! ## Values -/

theorem truthWord_inj {b b' : Bool} : truthWord b = truthWord b' ↔ b = b' := by
  revert b b'
  decide

end Settings

theorem DeviceKind.label_inj {k k' : DeviceKind} (h : k.label = k'.label) : k = k' := by
  cases k <;> cases k' <;> first | rfl | exact absurd h (by decide)

theorem Capability.label_inj {c c' : Capability} (h : c.label = c'.label) : c = c' := by
  cases c <;> cases c' <;> first | rfl | exact absurd h (by decide)

theorem toString_word_inj {n n' : UInt32} (h : toString n = toString n') : n = n' :=
  UInt32.toNat_inj.mp (Text.toString_nat_inj h)

theorem toString_size_inj {n n' : UInt64} (h : toString n = toString n') : n = n' :=
  UInt64.toNat_inj.mp (Text.toString_nat_inj h)

/-! ## The outline -/

namespace Settings

/-- Every name that is shown stands on one line, and no calibrator is named as if there were none. -/
structure Legible (s : Settings) : Prop where
  operators : ∀ name ∈ s.fallback.excludedOperators.toList, '\n' ∉ name.toList
  modules : ∀ name ∈ s.fallback.excludedModules.toList, '\n' ∉ name.toList
  calibrator : ∀ name, s.calibrator.map Calibrator.name = some name →
    '\n' ∉ name.toList ∧ name ≠ "None"

/-- The settings agree on all that is shown of them. Of a calibrator that is its name. -/
structure SameOutline (s s' : Settings) : Prop where
  inputs : s.inputs = s'.inputs
  precisions : s.precisions = s'.precisions
  device : s.device = s'.device
  fallback : s.fallback = s'.fallback
  capability : s.capability = s'.capability
  workspaceSize : s.workspaceSize = s'.workspaceSize
  minTimingIters : s.minTimingIters = s'.minTimingIters
  avgTimingIters : s.avgTimingIters = s'.avgTimingIters
  maxBatchSize : s.maxBatchSize = s'.maxBatchSize
  flags : s.flags = s'.flags
  calibrator : s.calibrator.map Calibrator.name = s'.calibrator.map Calibrator.name
  lowering : s.lowering = s'.lowering

variable {s s' : Settings}

/-- What stands in the line of the calibrator is its name, or the word for none. No legible
calibrator has that word for a name, so the line says which it is. -/
theorem calibrator_of_shown (hs : s.Legible) (hs' : s'.Legible)
    (h : (s.calibrator.map Calibrator.name).getD "None" =
      (s'.calibrator.map Calibrator.name).getD "None") :
    s.calibrator.map Calibrator.name = s'.calibrator.map Calibrator.name := by
  have hnone := hs.calibrator
  have hnone' := hs'.calibrator
  cases hname : s.calibrator.map Calibrator.name with
  | none =>
    cases hname' : s'.calibrator.map Calibrator.name with
    | none => rfl
    | some name' =>
      rw [hname, hname'] at h
      exact absurd h.symm (hnone' name' hname').2
  | some name =>
    cases hname' : s'.calibrator.map Calibrator.name with
    | none =>
      rw [hname, hname'] at h
      exact absurd h (hnone name hname).2
    | some name' =>
      rw [hname, hname'] at h
      exact congrArg some h

/-- The lines of the block on fallback. -/
def fallbackLines (policy : FallbackPolicy) : List String :=
  [valueLine "enabled" (truthWord policy.enabled),
    valueLine "min_block_size" (toString policy.minRegionSize)]
    ++ listLines "forced_fallback_operators" policy.excludedOperators.toList
    ++ listLines "forced_fallback_modules" policy.excludedModules.toList

/-- A policy is determined by its block: two values in lines of their own, and two lists that end
where they say. -/
theorem fallbackLines_inj {policy policy' : FallbackPolicy}
    (h : fallbackLines policy = fallbackLines policy') : policy = policy' := by
  simp only [fallbackLines, List.cons_append, List.nil_append, List.cons.injEq, valueLine_inj,
    truthWord_inj] at h
  obtain ⟨henabled, hsize, hlists⟩ := h
  obtain ⟨hoperators, hrest⟩ := listLines_append_inj hlists
  obtain ⟨hmodules, -⟩ := listLines_append_inj (congrArg (· ++ []) hrest)
  exact FallbackPolicy.ext henabled (Text.toString_nat_inj hsize) (NameSet.ext hoperators)
    (NameSet.ext hmodules)

/-- Settings with the same lines agree on all that is shown. The lines are taken off from the front,
lists and blocks by `listLines_append_inj` and `blockLines_append_inj`. -/
theorem sameOutline_of_outlineLines (hs : s.Legible) (hs' : s'.Legible)
    (h : s.outlineLines = s'.outlineLines) : s.SameOutline s' := by
  unfold outlineLines at h
  simp only [List.append_assoc] at h
  obtain ⟨hinputs, hrest⟩ := listLines_append_inj h
  obtain ⟨hprecisions, hrest⟩ := listLines_append_inj hrest
  simp only [List.cons_append, List.nil_append, List.cons.injEq, valueLine_inj,
    truthWord_inj] at hrest
  obtain ⟨htf32, hsparse, hrefit, hdebug, hstrict, hrest⟩ := hrest
  obtain ⟨hdevice, hrest⟩ := blockLines_append_inj hrest
  simp only [List.cons.injEq, valueLine_inj, truthWord_inj, and_true] at hdevice hrest
  obtain ⟨hkind, hallow, hprimary, hcore⟩ := hdevice
  obtain ⟨hcapability, hmin, havg, hworkspace, hbatch, htruncate, hcalibrator, hrest⟩ := hrest
  obtain ⟨hlowering, hrest⟩ := blockLines_append_inj hrest
  obtain ⟨hfallback, -⟩ := blockLines_append_inj (congrArg (· ++ []) hrest)
  simp only [List.cons.injEq, valueLine_inj, truthWord_inj, and_true] at hlowering
  exact {
    inputs := (List.map_inj_right fun _ _ => TensorSpec.text_inj).mp hinputs
    precisions := (List.map_inj_right fun _ _ => ElementType.label_inj).mp hprecisions
    device := Device.ext (DeviceKind.label_inj hkind) (toString_word_inj hprimary)
      (toString_word_inj hcore) hallow
    fallback := fallbackLines_inj hfallback
    capability := Capability.label_inj hcapability
    workspaceSize := toString_size_inj hworkspace
    minTimingIters := toString_word_inj hmin
    avgTimingIters := toString_word_inj havg
    maxBatchSize := toString_word_inj hbatch
    flags := Flags.ext hsparse htf32 hrefit hdebug hstrict htruncate
    calibrator := calibrator_of_shown hs hs' hcalibrator
    lowering := LoweringMode.ext hlowering.1 hlowering.2 }

/-! ### One line each -/

/-- The text stands on one line. -/
def OneLine (text : String) : Prop := '\n' ∉ text.toList

variable {text text' : String}

instance : Decidable (OneLine text) := inferInstanceAs (Decidable ('\n' ∉ text.toList))

theorem oneLine_append : OneLine (text ++ text') ↔ OneLine text ∧ OneLine text' := by
  simp [OneLine, not_or]

/-- A key in quotes, and what comes after it. -/
theorem oneLine_quoted : OneLine ("\"" ++ key ++ text) ↔ OneLine key ∧ OneLine text := by
  have hquote : OneLine "\"" := by decide
  rw [oneLine_append, oneLine_append, and_iff_right hquote]

theorem oneLine_valueLine : OneLine (valueLine key value) ↔ OneLine key ∧ OneLine value := by
  have hcolon : OneLine "\": " := by decide
  show OneLine ("\"" ++ key ++ "\": " ++ value) ↔ _
  rw [oneLine_append, oneLine_quoted, and_iff_left hcolon]

theorem forall_oneLine_indented (h : ∀ line ∈ lines, OneLine line) :
    ∀ line ∈ indented lines, OneLine line := by
  have hindent : OneLine indent := by decide
  exact List.forall_mem_map.mpr fun line hline => oneLine_append.mpr ⟨hindent, h line hline⟩

theorem forall_oneLine_listLines (hkey : OneLine key) (hitems : ∀ item ∈ items, OneLine item) :
    ∀ line ∈ listLines key items, OneLine line := by
  have hcomma : OneLine "," := by decide
  have hheader : OneLine ("\"" ++ key ++ "\": [") := oneLine_quoted.mpr ⟨hkey, by decide⟩
  refine List.forall_mem_append.mpr ⟨List.forall_mem_cons.mpr ⟨hheader, ?_⟩, by decide⟩
  exact forall_oneLine_indented (List.forall_mem_map.mpr fun item hitem =>
    oneLine_append.mpr ⟨hitems item hitem, hcomma⟩)

theorem forall_oneLine_blockLines (hkey : OneLine key) (hlines : ∀ line ∈ lines, OneLine line) :
    ∀ line ∈ blockLines key lines, OneLine line := by
  have hheader : OneLine ("\"" ++ key ++ "\": \x7b") := oneLine_quoted.mpr ⟨hkey, by decide⟩
  exact List.forall_mem_append.mpr
    ⟨List.forall_mem_cons.mpr ⟨hheader, forall_oneLine_indented hlines⟩, by decide⟩

theorem oneLine_of_numerals (h : ∀ c ∈ text.toList, IsNumeral c ∨ c = ',') : OneLine text := by
  intro hmem
  rcases h _ hmem with (hdigit | heq) | heq
  · cases hdigit
  · cases heq
  · cases heq

theorem oneLine_nat (n : Nat) : OneLine (toString n) :=
  oneLine_of_numerals fun _ hc => Or.inl (Text.isNumeral_of_mem_nat hc)

theorem oneLine_truthWord (b : Bool) : OneLine (truthWord b) := by
  cases b <;> decide

theorem oneLine_renderDims (dims : Dims) : OneLine (renderDims dims) := by
  have hopen : OneLine "(" := by decide
  have hclose : OneLine ")" := by decide
  rw [renderDims_eq, oneLine_append, oneLine_append]
  exact ⟨hopen, oneLine_of_numerals fun _ => isNumeral_or_comma_of_mem, hclose⟩

theorem oneLine_text (spec : TensorSpec) : OneLine spec.text := by
  have hextent : OneLine spec.extent.shown := by
    cases spec.extent <;>
    simp only [Extent.shown, oneLine_append, oneLine_renderDims, and_true, true_and] <;> decide
  have hdtype : OneLine spec.dtype.label := by cases spec.dtype <;> decide
  have hlayout : OneLine spec.layout.label := by cases spec.layout <;> decide
  rw [TensorSpec.text_eq]
  simp only [oneLine_append, hextent, hdtype, hlayout, true_and]
  decide

theorem oneLine_calibrator (hs : s.Legible) :
    OneLine ((s.calibrator.map Calibrator.name).getD "None") := by
  cases hname : s.calibrator.map Calibrator.name with
  | none => decide
  | some name => exact (hs.calibrator name hname).1

/-- The block on fallback is written in lines, since no excluded name is broken. -/
theorem forall_oneLine_fallbackLines (hs : s.Legible) :
    ∀ line ∈ fallbackLines s.fallback, OneLine line := by
  refine List.forall_mem_append.mpr ⟨List.forall_mem_append.mpr ⟨?_, ?_⟩, ?_⟩
  · simp only [List.forall_mem_cons, oneLine_valueLine, oneLine_truthWord, oneLine_nat, and_true]
    decide
  · exact forall_oneLine_listLines (by decide) hs.operators
  · exact forall_oneLine_listLines (by decide) hs.modules

/-- All of the outline of legible settings is written in lines: each element of `outlineLines` is
one line of the text. -/
theorem forall_oneLine_outlineLines (hs : s.Legible) : ∀ line ∈ s.outlineLines, OneLine line := by
  have hword : ∀ n : UInt32, OneLine (toString n) := fun n => oneLine_nat n.toNat
  have hsize : ∀ n : UInt64, OneLine (toString n) := fun n => oneLine_nat n.toNat
  have hprecision : ∀ t : ElementType, OneLine t.label := by intro t; cases t <;> decide
  have hkind : OneLine s.device.kind.label := by cases s.device.kind <;> decide
  have hcapability : OneLine s.capability.label := by cases s.capability <;> decide
  unfold outlineLines
  refine List.forall_mem_append.mpr ⟨?_, forall_oneLine_blockLines (by decide)
    (forall_oneLine_fallbackLines hs)⟩
  simp only [List.forall_mem_append]
  refine ⟨⟨⟨⟨⟨?inputs, ?precisions⟩, ?flags⟩, ?device⟩, ?knobs⟩, ?lowering⟩
  case inputs =>
    exact forall_oneLine_listLines (by decide) (List.forall_mem_map.mpr fun spec _ => oneLine_text spec)
  case precisions =>
    exact forall_oneLine_listLines (by decide) (List.forall_mem_map.mpr fun t _ => hprecision t)
  case flags =>
    simp only [List.forall_mem_cons, oneLine_valueLine, oneLine_truthWord, and_true]
    decide
  case device =>
    refine forall_oneLine_blockLines (by decide) ?_
    simp only [List.forall_mem_cons, oneLine_valueLine, oneLine_truthWord, hkind, hword, and_true]
    decide
  case knobs =>
    simp only [List.forall_mem_cons, oneLine_valueLine, oneLine_truthWord, hcapability, hword, hsize,
      oneLine_calibrator hs, and_true]
    decide
  case lowering =>
    refine forall_oneLine_blockLines (by decide) ?_
    simp only [List.forall_mem_cons, oneLine_valueLine, oneLine_truthWord, and_true]
    decide

/-- The lines of the outline are found in the text: joined by line feeds, of which none has one
inside, they can be taken apart again. -/
theorem outlineLines_of_describe (hs : s.Legible) (hs' : s'.Legible)
    (h : s.describe = s'.describe) : s.outlineLines = s'.outlineLines := by
  have hlines : ∀ {s : Settings}, s.Legible →
      ∀ line ∈ "Compile Settings: \x7b" :: indented s.outlineLines ++ ["\x7d"], OneLine line := by
    intro s hs
    refine List.forall_mem_append.mpr ⟨List.forall_mem_cons.mpr ⟨by decide, ?_⟩, by decide⟩
    exact forall_oneLine_indented (forall_oneLine_outlineLines hs)
  have hsame := join_ended_inj rfl (hlines hs) (hlines hs') h
  exact indented_inj.mp (List.cons.inj (List.append_cancel_right hsame)).2

theorem describe_of_sameOutline (h : s.SameOutline s') : s.describe = s'.describe := by
  unfold describe outlineLines
  rw [h.inputs, h.precisions, h.device, h.fallback, h.capability, h.workspaceSize, h.minTimingIters,
    h.avgTimingIters, h.maxBatchSize, h.flags, h.calibrator, h.lowering]

/-- Settings of which each name stands on one line are shown as one text exactly when they agree on
all that is shown. -/
theorem describe_eq_iff (hs : s.Legible) (hs' : s'.Legible) :
    s.describe = s'.describe ↔ s.SameOutline s' :=
  ⟨fun h => sameOutline_of_outlineLines hs hs' (outlineLines_of_describe hs hs' h),
    describe_of_sameOutline⟩

/-- Settings for one input, with some exclusions. -/
def excluding (operators modules : List String) : Settings :=
  { inputs := [⟨.fixed [4, 12], .float, .contiguous, rfl⟩], precisions := [.float]
    device := .default, fallback := ⟨true, 2, .ofList operators, .ofList modules⟩
    capability := .standard, workspaceSize := 0, minTimingIters := 2, avgTimingIters := 1
    maxBatchSize := 0, flags := .off, calibrator := none, calibrationMode := .notRequired
    lowering := .default }

/-- An operator that is named as if the list ended there. -/
theorem describe_eq_iff_lookalike :
    (excluding ["],", "relu"] []).Legible ∧ (excluding ["]"] ["relu"]).Legible ∧
      (excluding ["],", "relu"] []).describe ≠ (excluding ["]"] ["relu"]).describe := by
  have hs : (excluding ["],", "relu"] []).Legible :=
    ⟨by decide, by decide, fun _ h => (by cases h)⟩
  have hs' : (excluding ["]"] ["relu"]).Legible := ⟨by decide, by decide, fun _ h => (by cases h)⟩
  refine ⟨hs, hs', fun h => ?_⟩
  have hfallback := ((describe_eq_iff hs hs').mp h).fallback
  exact absurd hfallback (by decide)

/-- A calibrator that is named as if there were none cannot be told from none. -/
example : ((excluding [] []).withCalibrator (.ofCache "None" 1 none)).map describe =
    .ok (excluding [] []).describe := rfl

end Settings

end HybridCompile
