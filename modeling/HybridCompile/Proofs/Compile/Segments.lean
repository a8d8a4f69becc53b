import HybridCompile.Proofs.Compile.Assembly

/-!
# HybridCompile — the segments of an executable

A compilation that succeeds has a segment for each region of its plan, in the plan's order and with
the plan's tensors, and has passed its own check.

* `segments_of_compile` — the plan, and what its executable is made of.
* `Executable.Wired.exists_engine` — the segments for the accelerator have their engines.
-/

namespace HybridCompile

variable {p : Progress} {m : Metrics}

theorem assembleRegion_segment {r : Region} {segment : Segment} {m' : Metrics}
    (h : Session.assembleRegion p m r = .ok (segment, m')) : ∃ a, segment = .ofRegion r a := by
  unfold Session.assembleRegion at h
  split at h
  · split at h
    · cases h
    · next a _ => exact ⟨a, (Prod.mk.inj (Except.ok.inj h)).1.symm⟩
  · exact ⟨_, (Prod.mk.inj (Except.ok.inj h)).1.symm⟩

/-- What is put together for regions are segments of them, in their order. Induction on the regions.
-/
theorem assembleRegions_segments {regions : List Region} {segments : List Segment} {m' : Metrics}
    (h : Session.assembleRegions p m regions = .ok (segments, m')) :
    List.Forall₂ (fun r segment => ∃ a, segment = Segment.ofRegion r a) regions segments := by
  induction regions generalizing m segments m' with
  | nil =>
    obtain ⟨rfl, -⟩ := Prod.mk.inj (Except.ok.inj h)
    exact .nil
  | cons r rest ih =>
    obtain ⟨⟨segment, m₁⟩, hfirst, h⟩ := bind_eq_ok_iff.mp h
    obtain ⟨⟨others, m₂⟩, hrest, h⟩ := bind_eq_ok_iff.mp h
    obtain ⟨rfl, -⟩ := Prod.mk.inj (Except.ok.inj h)
    exact .cons (assembleRegion_segment hfirst) (ih hrest)

/-- An executable that is put together has segments of its regions, and has passed its check. -/
theorem assemble_segments {g : ValidGraph} {plan : Plan} {e : Executable}
    (h : Session.assemble g plan p = .ok e) :
    List.Forall₂ (fun r segment => ∃ a, segment = Segment.ofRegion r a) plan.regions e.segments ∧
      e.check = .ok () := by
  unfold Session.assemble at h
  split at h
  · cases h
  · obtain ⟨⟨segments, metrics⟩, hregions, h⟩ := bind_eq_ok_iff.mp h
    dsimp only at h
    split at h
    · next hcheck =>
      obtain rfl := Except.ok.inj h
      exact ⟨assembleRegions_segments hregions, hcheck⟩
    · cases h

/-- An executable that a compilation gives comes of a plan, has a segment for each of its regions,
and is wired. -/
theorem segments_of_compile {session : Session} {g : ValidGraph} {s : Settings} {signal : Bool}
    {order : List Region → List Region} {e : Executable}
    (h : (session.compileInOrder order g s signal).outcome = .ok e) :
    ∃ plan, session.plan g s = .ok plan ∧
      List.Forall₂ (fun r segment => ∃ a, segment = Segment.ofRegion r a) plan.regions e.segments ∧
      e.Wired := by
  obtain ⟨⟨plan, hplan⟩, hsemaphore⟩ := exists_plan_of_compile h
  rw [compileInOrder_of_plan hplan hsemaphore] at h
  obtain ⟨hsegments, hcheck⟩ := assemble_segments (CompileOutcome.ofExcept_eq_ok_iff.mp h)
  exact ⟨plan, hplan, hsegments, wired_of_check hcheck⟩

namespace Executable.Wired

variable {e : Executable} (h : e.Wired) {segment segment' : Segment}
include h

/-- No two segments are for one region. -/
theorem segment_eq_of_region (hmem : segment ∈ e.segments) (hmem' : segment' ∈ e.segments)
    (heq : segment.region = segment'.region) : segment = segment' := by
  have hnodup : (e.segments.map Segment.region).Nodup := by
    rw [h.indices_eq]
    exact List.nodup_range
  exact List.inj_on_of_nodup_map hnodup hmem hmem' heq

/-- A segment for the accelerator has an engine, since wiring asks for the right kind. -/
theorem exists_engine (hmem : segment ∈ e.segments) (htarget : segment.target = .accelerator) :
    ∃ bytes report, segment.artifact.engine? = some (bytes, report) := by
  have hengine := h.kinds segment hmem
  rw [htarget] at hengine
  obtain ⟨⟨bytes, report⟩, hsome⟩ := Option.isSome_iff_exists.mp hengine
  exact ⟨bytes, report, hsome⟩

/-- The engines of an executable are those of its segments for the accelerator. -/
theorem mem_engines_iff {bytes : Bytes} :
    (segment, bytes) ∈ e.engines ↔
      segment ∈ e.segments ∧ segment.target = .accelerator ∧
        ∃ report, segment.artifact.engine? = some (bytes, report) := by
  unfold engines
  rw [List.mem_filterMap]
  constructor
  · rintro ⟨segment', hmem, hsome⟩
    obtain ⟨⟨bytes', report⟩, hengine, heq⟩ := Option.map_eq_some_iff.mp hsome
    obtain ⟨rfl, rfl⟩ := Prod.mk.inj heq
    have hkind := h.kinds segment' hmem
    rw [Artifact.isEngine, hengine] at hkind
    exact ⟨hmem, eq_of_beq hkind.symm, report, hengine⟩
  · rintro ⟨hmem, -, report, hengine⟩
    exact ⟨segment, hmem, by rw [hengine]; rfl⟩

end Executable.Wired

end HybridCompile
