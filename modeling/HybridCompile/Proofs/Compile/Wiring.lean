import HybridCompile.Compile.Executable
import HybridCompile.Proofs.Dataflow.Boundary
import HybridCompile.Proofs.Partition.Regions

/-!
# HybridCompile — the wiring of executables

The check that ends a compilation walks over the segments with the tensors that are there so far.
Segments that mirror the regions of a plan always pass it, since what a region needs crosses the
boundaries of all regions before it.

* `Executable.Wired` — what the check is for; `wired_of_check` — what passes is wired.
* `check_eq_ok_of_mirrors` — segments that mirror a plan pass.
-/

namespace HybridCompile

/-- Every tensor of an executable comes from somewhere, and every segment has what its target asks
for. -/
structure Executable.Wired (e : Executable) : Prop where
  indices_eq : e.segments.map Segment.region = List.range e.segments.length
  kinds : ∀ s ∈ e.segments, s.artifact.isEngine = (s.target == .accelerator)
  inputs_earlier : ∀ (place : Nat) (s : Segment), e.segments[place]? = some s → ∀ t ∈ s.inputs,
    t ∈ e.inputs ∨ ∃ p < place, ∃ s', e.segments[p]? = some s' ∧ t ∈ s'.outputs
  outputs_made : ∀ t ∈ e.outputs, t ∈ e.inputs ∨ ∃ s ∈ e.segments, t ∈ s.outputs

/-- A segment for a region, with an artifact of the kind that the region's target asks for. -/
def Segment.Mirrors (r : Region) (s : Segment) : Prop :=
  ∃ a : Artifact, s = .ofRegion r a ∧ a.isEngine = r.isAccelerator

section Check

variable {place : Nat} {available available' : List String} {segments : List Segment}

/-- One step of the walk over segments: what is asked of the first, and that the walk goes on with
what it makes. Later proofs take this instead of the definition. -/
theorem checkSegments_cons_eq_ok_iff {s : Segment} :
    Executable.checkSegments place available (s :: segments) = .ok available' ↔
      s.region = place ∧ s.artifact.isEngine = (s.target == .accelerator) ∧
        (∀ t ∈ s.inputs, t ∈ available) ∧
        Executable.checkSegments (place + 1) (s.outputs ++ available) segments =
          .ok available' := by
  rw [Executable.checkSegments]
  simp only [guard_eq_ok_iff, ne_eq, not_not]
  refine and_congr_right fun _ => and_congr_right fun _ => ?_
  have hfind : s.inputs.find? (fun t => !available.contains t) = none ↔
      ∀ t ∈ s.inputs, t ∈ available := by
    simp
  cases hmissing : s.inputs.find? fun t => !available.contains t with
  | none => simp only [← hfind, hmissing, true_and]
  | some t =>
    have : ¬∀ t ∈ s.inputs, t ∈ available := by
      rw [← hfind, hmissing]
      exact Option.some_ne_none t
    exact ⟨fun h => (by cases h), fun h => absurd h.1 this⟩

/-- A walk that ends well has counted the segments on. Induction on the segments. -/
theorem region_eq_of_checkSegments
    (h : Executable.checkSegments place available segments = .ok available') :
    segments.map Segment.region = List.range' place segments.length := by
  induction segments generalizing place available with
  | nil => rfl
  | cons s rest ih =>
    obtain ⟨hregion, _, _, h⟩ := checkSegments_cons_eq_ok_iff.mp h
    rw [List.map_cons, List.length_cons, List.range'_succ, hregion, ih h]

/-- A walk that ends well has found each artifact of the right kind. Induction on the segments. -/
theorem isEngine_of_checkSegments
    (h : Executable.checkSegments place available segments = .ok available') :
    ∀ s ∈ segments, s.artifact.isEngine = (s.target == .accelerator) := by
  induction segments generalizing place available with
  | nil => simp
  | cons s rest ih =>
    obtain ⟨_, hkind, _, h⟩ := checkSegments_cons_eq_ok_iff.mp h
    exact List.forall_mem_cons.mpr ⟨hkind, ih h⟩

/-- What a segment reads was there, or is an output of an earlier segment. Induction on the
segments. -/
theorem mem_inputs_of_checkSegments
    (h : Executable.checkSegments place available segments = .ok available') {k : Nat} {s : Segment}
    (hs : segments[k]? = some s) {t : String} (ht : t ∈ s.inputs) :
    t ∈ available ∨ ∃ p < k, ∃ s', segments[p]? = some s' ∧ t ∈ s'.outputs := by
  induction segments generalizing place available k with
  | nil => simp at hs
  | cons first rest ih =>
    obtain ⟨_, _, hinputs, h⟩ := checkSegments_cons_eq_ok_iff.mp h
    cases k with
    | zero =>
      cases hs
      exact Or.inl (hinputs t ht)
    | succ k =>
      rcases ih h hs with hthere | ⟨p, hp, s', hs', ht'⟩
      · rcases List.mem_append.mp hthere with hmade | hthere
        · exact Or.inr ⟨0, Nat.zero_lt_succ k, first, rfl, hmade⟩
        · exact Or.inl hthere
      · exact Or.inr ⟨p + 1, by omega, s', hs', ht'⟩

/-- What is there at the end of the walk was there, or some segment makes it. Induction on the
segments. -/
theorem mem_of_checkSegments
    (h : Executable.checkSegments place available segments = .ok available') {t : String}
    (ht : t ∈ available') : t ∈ available ∨ ∃ s ∈ segments, t ∈ s.outputs := by
  induction segments generalizing place available with
  | nil =>
    cases h
    exact Or.inl ht
  | cons first rest ih =>
    obtain ⟨_, _, _, h⟩ := checkSegments_cons_eq_ok_iff.mp h
    rcases ih h with hthere | ⟨s, hs, hmade⟩
    · rcases List.mem_append.mp hthere with hmade | hthere
      · exact Or.inr ⟨first, List.mem_cons_self, hmade⟩
      · exact Or.inl hthere
    · exact Or.inr ⟨s, List.mem_cons_of_mem first hs, hmade⟩

/-- The check passes exactly if the walk ends well and all graph outputs are there then. -/
theorem check_eq_ok_iff {e : Executable} :
    e.check = .ok () ↔
      ∃ available, Executable.checkSegments 0 e.inputs e.segments = .ok available ∧
        ∀ t ∈ e.outputs, t ∈ available := by
  unfold Executable.check
  rw [bind_eq_ok_iff]
  refine exists_congr fun available => and_congr_right fun _ => ?_
  have hfind : e.outputs.find? (fun t => !available.contains t) = none ↔
      ∀ t ∈ e.outputs, t ∈ available := by
    simp
  rw [← hfind]
  cases e.outputs.find? fun t => !available.contains t with
  | none => exact ⟨fun _ => rfl, fun _ => rfl⟩
  | some t => exact ⟨fun h => (by cases h), fun h => (by cases h)⟩

theorem wired_of_check {e : Executable} (h : e.check = .ok ()) : e.Wired := by
  obtain ⟨available, hsegments, houtputs⟩ := check_eq_ok_iff.mp h
  exact {
    indices_eq := by
      rw [region_eq_of_checkSegments hsegments, List.range_eq_range']
    kinds := isEngine_of_checkSegments hsegments
    inputs_earlier := fun _ _ hs _ ht => mem_inputs_of_checkSegments hsegments hs ht
    outputs_made := fun t ht => mem_of_checkSegments hsegments (houtputs t ht) }

end Check

/-! ## Segments that mirror a plan -/

variable {g : ValidGraph} {runs : List Run} {segments : List Segment}

/-- The walk over segments that mirror the regions of a tiling. Before each of them everything is
there that is there in the graph and still needed, `ThereAt` and `NeededAt`; that is the invariant,
and the induction is on the tiling. -/
theorem checkSegments_of_mirrors (h : g.Sound) {place last index : Nat}
    (htiles : Run.Tiles place runs last)
    (hmirrors : List.Forall₂ Segment.Mirrors (Run.toRegions g index runs) segments)
    {available : List String}
    (havailable : ∀ t, ThereAt g place t → NeededAt g place t → t ∈ available) :
    ∃ available', Executable.checkSegments index available segments = .ok available' ∧
      ∀ t, ThereAt g last t → NeededAt g last t → t ∈ available' := by
  induction htiles generalizing index segments available with
  | nil =>
    cases hmirrors
    exact ⟨available, rfl, havailable⟩
  | @cons _ _ run rest hstart hlt _ ih =>
    subst hstart
    obtain _ | ⟨⟨a, rfl, hkind⟩, hrest⟩ := hmirrors
    have hnext : ∀ t, ThereAt g run.stop t → NeededAt g run.stop t →
        t ∈ (boundary g run.start run.stop).2 ++ available := by
      intro t hthere hneeded
      by_cases hout : t ∈ (boundary g run.start run.stop).2
      · exact List.mem_append_left _ hout
      · obtain ⟨hbefore, hnone⟩ := hneeded.passes h hlt hout
        refine List.mem_append_right _ (havailable t (hthere.imp_right ?_) hbefore)
        rintro ⟨p, hp, hw⟩
        exact ⟨p, Nat.lt_of_not_le fun hle => hnone ⟨p, hle, hp, hw⟩, hw⟩
    obtain ⟨available', hwalk, hthere⟩ := ih hrest hnext
    refine ⟨available', checkSegments_cons_eq_ok_iff.mpr ⟨rfl, hkind, fun t ht => ?_, hwalk⟩, hthere⟩
    exact havailable t (thereAt_of_mem_boundary_inputs h ht) (neededAt_of_mem_boundary_inputs h ht)

/-- Segments that mirror the regions of a plan pass the check, whatever the metrics. -/
theorem check_eq_ok_of_mirrors (h : g.Sound) (htiles : Run.Tiles 0 runs g.operators.length)
    (hmirrors : List.Forall₂ Segment.Mirrors (Plan.ofRuns g runs).regions segments)
    (metrics : Metrics) :
    (⟨g.name, g.inputs, g.outputs, segments, metrics⟩ : Executable).check = .ok () := by
  have hstart : ∀ t, ThereAt g 0 t → NeededAt g 0 t → t ∈ g.inputs := by
    rintro t (hin | ⟨p, hp, _⟩) _
    · exact hin
    · omega
  obtain ⟨available, hwalk, hthere⟩ := checkSegments_of_mirrors h htiles hmirrors hstart
  exact check_eq_ok_iff.mpr
    ⟨available, hwalk, fun t ht => hthere t (h.thereAt_length ht) (Or.inl ht)⟩

end HybridCompile
