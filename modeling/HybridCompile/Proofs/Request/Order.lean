import HybridCompile.Engine.Build
import HybridCompile.Plan.Partition
import HybridCompile.Proofs.Request.Description
import HybridCompile.Settings.Outline

/-!
# HybridCompile — the order of what a request lists

The precisions of a request and its two lists of exclusions are sets: their order, repetitions, and
by which of its names a precision is given make no difference to the settings, and so to nothing
that is made from them. They can make one to the fault, as the first unknown precision is named.

* `Request.SameSets` — two requests that differ in nothing else.
* `Request.SameSets.toSettings_eq` — their settings or their fault, where all precisions are known.
* `Request.toSettings_of_sameSets` — what is made from them.
-/

namespace HybridCompile.Request

/-- Two names of precisions that come to the same: they are one name, or name one precision. -/
def SamePrecision (name name' : String) : Prop :=
  name = name' ∨ ∃ t, ElementType.names.Spells name t ∧ ElementType.names.Spells name' t

/-- The requests differ in nothing but the order and the repetitions of their precisions and
exclusions, and the names of the precisions. -/
structure SameSets (r r' : Request) : Prop where
  precisions : ∀ name ∈ r.precisions, ∃ name' ∈ r'.precisions, SamePrecision name name'
  precisions' : ∀ name' ∈ r'.precisions, ∃ name ∈ r.precisions, SamePrecision name' name
  operators : ∀ name, name ∈ r.fallback.operators ↔ name ∈ r'.fallback.operators
  modules : ∀ name, name ∈ r.fallback.modules ↔ name ∈ r'.fallback.modules
  rest : r' = { r with
    precisions := r'.precisions
    fallback := { r.fallback with
      operators := r'.fallback.operators, modules := r'.fallback.modules } }

/-- Every precision of the request is known. -/
def PrecisionsKnown (r : Request) : Prop := ∀ name ∈ r.precisions, ∃ t, ElementType.names.Spells name t

variable {r r' : Request} {s s' : Settings} {names names' : List String} {name name' : String}
  {fault : Fault} {t : ElementType}

theorem samePrecision_of_parse (h : ElementType.parse name = .ok t)
    (h' : ElementType.parse name' = .ok t) : SamePrecision name name' :=
  Or.inr ⟨t, Vocabulary.parse_eq_ok_iff.mp h, Vocabulary.parse_eq_ok_iff.mp h'⟩

theorem SamePrecision.spelled (h : SamePrecision name name') (ht : ElementType.names.Spells name t) :
    ElementType.names.Spells name' t := by
  obtain rfl | ⟨t', hname, hname'⟩ := h
  · exact ht
  · exact (Vocabulary.spells_iff hname).mp ht ▸ hname'

namespace SameSets

theorem symm (h : SameSets r r') : SameSets r' r where
  precisions := h.precisions'
  precisions' := h.precisions
  operators := fun name => (h.operators name).symm
  modules := fun name => (h.modules name).symm
  rest := by rw [h.rest]

/-! ### Precisions -/

theorem precisionsKnown (h : SameSets r r') (hr : r.PrecisionsKnown) : r'.PrecisionsKnown := by
  intro name' hname'
  obtain ⟨name, hname, heq | ⟨t, ht', -⟩⟩ := h.precisions' name' hname'
  · exact heq ▸ hr name hname
  · exact ⟨t, ht'⟩

theorem exists_spelled (h : SameSets r r')
    (hr : ∃ name ∈ r.precisions, ElementType.names.Spells name t) :
    ∃ name ∈ r'.precisions, ElementType.names.Spells name t := by
  obtain ⟨name, hname, ht⟩ := hr
  obtain ⟨name', hname', hsame⟩ := h.precisions name hname
  exact ⟨name', hname', hsame.spelled ht⟩

theorem precisions_eq_nil (h : SameSets r r') (hr : r.precisions = []) : r'.precisions = [] := by
  refine List.eq_nil_iff_forall_not_mem.mpr fun name' hname' => ?_
  obtain ⟨name, hname, -⟩ := h.precisions' name' hname'
  rw [hr] at hname
  cases hname

/-! ### Exclusions -/

theorem leastBlank_congr (h : ∀ name, name ∈ names ↔ name ∈ names') :
    FallbackEntry.LeastBlank names name ↔ FallbackEntry.LeastBlank names' name := by
  constructor
  · rintro ⟨hmem, hblank, hleast⟩
    exact ⟨(h name).mp hmem, hblank, fun other hother => hleast other ((h other).mpr hother)⟩
  · rintro ⟨hmem, hblank, hleast⟩
    exact ⟨(h name).mpr hmem, hblank, fun other hother => hleast other ((h other).mp hother)⟩

theorem blankFault_congr (h : ∀ name, name ∈ names ↔ name ∈ names') :
    FallbackEntry.BlankFault names fault ↔ FallbackEntry.BlankFault names' fault := by
  simp only [FallbackEntry.BlankFault, leastBlank_congr h]

/-! ### The whole -/

theorem exists_lists (h : SameSets r r') : ∃ precisions operators modules, r' = { r with
    precisions, fallback := { r.fallback with operators, modules } } :=
  ⟨_, _, _, h.rest⟩

/-- Each condition of `Acceptable` is about the lists as sets, so one of the requests meets it
exactly if the other does. -/
theorem acceptable (h : SameSets r r') (hr : r.Acceptable) : r'.Acceptable := by
  have hprecisions := h.precisionsKnown hr.precisions
  have hne : r'.precisions ≠ [] := mt h.symm.precisions_eq_nil hr.precisions_ne_nil
  obtain ⟨precisions, operators, modules, rfl⟩ := h.exists_lists
  exact { hr with
    precisions := hprecisions
    precisions_ne_nil := hne
    fallback := {
      minBlockSize := hr.fallback.minBlockSize
      operators := fun name hname => hr.fallback.operators name ((h.operators name).mpr hname)
      modules := fun name hname => hr.fallback.modules name ((h.modules name).mpr hname) } }

/-- What one of the requests describes, the other describes as well: `Describes` speaks of the
precisions and the exclusions by their members only. -/
theorem describes (h : SameSets r r') (hs : r.Describes s) : r'.Describes s := by
  have hprecisions : ∀ t, t ∈ s.precisions ↔ ∃ name ∈ r'.precisions, ElementType.names.Spells name t :=
    fun t => (hs.mem_precisions t).trans ⟨h.exists_spelled, h.symm.exists_spelled⟩
  obtain ⟨precisions, operators, modules, rfl⟩ := h.exists_lists
  exact { hs with
    mem_precisions := hprecisions
    fallback := { hs.fallback with
      operators := fun name => (hs.fallback.operators name).trans (h.operators name)
      modules := fun name => (hs.fallback.modules name).trans (h.modules name) } }

theorem toSettings_eq_ok (h : SameSets r r') (hs : r.toSettings = .ok s) : r'.toSettings = .ok s := by
  obtain ⟨hr, hdescribes⟩ := toSettings_eq_ok_iff_describes.mp hs
  exact toSettings_eq_ok_iff_describes.mpr ⟨h.acceptable hr, h.describes hdescribes⟩

theorem not_precisionsFault (hr : r.PrecisionsKnown) : ¬PrecisionsFault r.precisions fault := by
  rintro ⟨name, hname, -⟩
  exact hname.holds (hr name hname.mem)

/-- The checks of the two requests find the same, unless a precision is unknown. -/
theorem checks_congr (h : SameSets r r') (hr : r.PrecisionsKnown) :
    List.Forall₂ (fun c c' => ∀ fault, c fault ↔ c' fault) r.checks r'.checks := by
  have hknown : ∀ fault, PrecisionsFault r.precisions fault ↔ PrecisionsFault r'.precisions fault :=
    fun fault => iff_of_false (not_precisionsFault hr) (not_precisionsFault (h.precisionsKnown hr))
  have hnil : r.precisions = [] ↔ r'.precisions = [] :=
    ⟨h.precisions_eq_nil, h.symm.precisions_eq_nil⟩
  obtain ⟨precisions, operators, modules, rfl⟩ := h.exists_lists
  have hfallback : ∀ fault, FirstOf r.fallback.checks fault ↔
      FirstOf ({ r.fallback with operators, modules } : FallbackEntry).checks fault := fun fault =>
    FirstOf.congr (.cons (fun _ => Iff.rfl) (.cons (fun _ => blankFault_congr h.operators)
      (.cons (fun _ => blankFault_congr h.modules) .nil)))
  refine .cons (fun _ => Iff.rfl) (.cons hknown (.cons (fun _ => Iff.rfl) (.cons hfallback ?_)))
  refine .cons (fun _ => Iff.rfl) (.cons (fun _ => Iff.rfl)
    (.cons (fun fault => and_congr_left' hnil) ?_))
  exact List.forall₂_same.mpr fun _ _ _ => Iff.rfl

/-- Where every precision is known, the two requests come to the same settings or the same fault. -/
theorem toSettings_eq (h : SameSets r r') (hr : r.PrecisionsKnown) :
    r.toSettings = r'.toSettings := by
  cases hs : r.toSettings with
  | ok s => exact (h.toSettings_eq_ok hs).symm
  | error err =>
    obtain ⟨fault, hfault, rfl⟩ := toSettings_eq_error_iff.mp hs
    have hfault' := (FirstOf.congr (h.checks_congr hr)).mp hfault
    exact (toSettings_eq_error_iff.mpr ⟨fault, hfault', rfl⟩).symm

end SameSets

/-- Requests that list the same sets become settings together or not at all, and the same settings:
they are shown as one text, every graph is divided in one way, and the reference backend builds one
engine for a region of it. -/
theorem toSettings_of_sameSets (h : SameSets r r') :
    ((∃ s, r.toSettings = .ok s) ↔ ∃ s, r'.toSettings = .ok s) ∧
    (r.PrecisionsKnown → r.toSettings = r'.toSettings) ∧
    ∀ s s', r.toSettings = .ok s → r'.toSettings = .ok s' →
      s = s' ∧ s.describe = s'.describe ∧
      (∀ oracle g, partition oracle g s = partition oracle g s') ∧
      ∀ (b : ReferenceBackend) g region budget arena signal,
        (buildIn b.toBackend g region s budget arena signal).outcome =
          (buildIn b.toBackend g region s' budget arena signal).outcome := by
  refine ⟨⟨?_, ?_⟩, h.toSettings_eq, fun s s' hs hs' => ?_⟩
  · rintro ⟨s, hs⟩
    exact ⟨s, h.toSettings_eq_ok hs⟩
  · rintro ⟨s, hs⟩
    exact ⟨s, h.symm.toSettings_eq_ok hs⟩
  · obtain rfl : s = s' := Except.ok.inj ((h.toSettings_eq_ok hs).symm.trans hs')
    exact ⟨rfl, rfl, fun _ _ => rfl, fun _ _ _ _ _ _ => rfl⟩

/-- The request for int8, with operators and a module that are excluded. -/
def excludingRequest : Request :=
  { Settings.int8Request with
    fallback := ⟨true, 2, ["aten::relu", "aten::add", "aten::relu"], ["head"]⟩ }

/-- The same in another order, with other repetitions and by other names. -/
def shuffledRequest : Request :=
  { Settings.int8Request with
    precisions := ["half", "Char", "f16"]
    fallback := ⟨true, 2, ["aten::add", "aten::relu"], ["head", "head"]⟩ }

/-- Exclusions in another order with other repetitions, and precisions by other names, make the same
settings. -/
theorem toSettings_of_sameSets_shuffled :
    SameSets excludingRequest shuffledRequest ∧
      ∃ s, excludingRequest.toSettings = .ok s ∧ shuffledRequest.toSettings = .ok s := by
  have hsets : SameSets excludingRequest shuffledRequest := {
    precisions := by
      rintro name (_ | ⟨_, _ | ⟨_, hnil⟩⟩)
      · exact ⟨"Char", by decide, samePrecision_of_parse (t := .int8) rfl rfl⟩
      · exact ⟨"half", by decide, samePrecision_of_parse (t := .half) rfl rfl⟩
      · cases hnil
    precisions' := by
      rintro name' (_ | ⟨_, _ | ⟨_, _ | ⟨_, hnil⟩⟩⟩)
      · exact ⟨"FP16 ", by decide, samePrecision_of_parse (t := .half) rfl rfl⟩
      · exact ⟨"int8", by decide, samePrecision_of_parse (t := .int8) rfl rfl⟩
      · exact ⟨"FP16 ", by decide, samePrecision_of_parse (t := .half) rfl rfl⟩
      · cases hnil
    operators := by simp [excludingRequest, shuffledRequest]
    modules := by simp [excludingRequest, shuffledRequest]
    rest := rfl }
  obtain ⟨hboth, -, hsame⟩ := toSettings_of_sameSets hsets
  obtain ⟨s, hs⟩ : ∃ s, excludingRequest.toSettings = .ok s := ⟨_, rfl⟩
  obtain ⟨s', hs'⟩ := hboth.mp ⟨s, hs⟩
  obtain ⟨rfl, -⟩ := hsame s s' hs hs'
  exact ⟨hsets, s, hs, hs'⟩

end HybridCompile.Request
