import HybridCompile.Compile.Session
import HybridCompile.Proofs.Compile.Wiring

/-!
# HybridCompile — gathering engines

The builds of a compilation come in some order, and each sees what the builds before it left behind.
Whatever is shown of one build, as long as none has failed, holds of all of them; and once each
region has its artifact, the executable that is put together from them always passes its check.

* `compileInOrder_of_plan`, `compileInOrder_of_crowded` — a compilation with a plan, with a semaphore
  for its builds and without one.
* `Tally` — what builds keep true; `tally_buildEach` — of all builds, from one.
* `Tally.exists_artifacts` — an artifact for each region.
* `assemble_eq_ok`, `Tally.assemble_cases` — the executable that they make; `Tally.compile_cases` —
  how the compilation ends.
-/

namespace HybridCompile

/-! ## Plans -/

/-- A session has a plan exactly if the settings describe as many inputs as the graph has and the
graph can be partitioned. -/
theorem plan_eq_ok_iff {session : Session} {g : ValidGraph} {s : Settings} {plan : Plan} :
    session.plan g s = .ok plan ↔
      s.inputs.length = g.inputs.length ∧ partition session.oracle g s = .ok plan := by
  unfold Session.plan checkArity
  by_cases hcount : s.inputs.length = g.inputs.length
  · rw [if_pos hcount]
    show (partition session.oracle g s).mapError CompileError.partition = .ok plan ↔ _
    cases partition session.oracle g s with
    | ok plan' => simp [Except.mapError, hcount]
    | error e => simp [Except.mapError]
  · rw [if_neg hcount]
    exact ⟨fun h => (by cases h), fun h => absurd h.1 hcount⟩

section

variable {session : Session} {g : ValidGraph} {s : Settings} {plan : Plan}
variable {order : List Region → List Region} {signal : Bool}

/-- With a plan, and a semaphore for its builds, a compilation builds all engines in the order given
and puts together what `buildEach` leaves. -/
theorem compileInOrder_of_plan (hplan : session.plan g s = .ok plan)
    (hsemaphore : session.config.hasSemaphore = true) (order : List Region → List Region)
    (signal : Bool) :
    session.compileInOrder order g s signal =
      let progress := session.buildEach g s signal (order plan.acceleratorRegions)
      ⟨.ofExcept (Session.assemble g plan progress), progress⟩ := by
  unfold Session.compileInOrder Session.buildAll
  rw [hplan]
  dsimp only
  rw [if_pos hsemaphore]

/-- With a plan, and no semaphore, it breaks down before any build. -/
theorem compileInOrder_of_crowded (hplan : session.plan g s = .ok plan)
    (hcrowded : session.config.hasSemaphore = false) (order : List Region → List Region)
    (signal : Bool) :
    session.compileInOrder order g s signal = ⟨.crashed, .start s signal⟩ := by
  unfold Session.compileInOrder Session.buildAll
  rw [hplan]
  dsimp only
  rw [hcrowded]
  rfl

theorem compileInOrder_of_unplanned {e : CompileError} (hplan : session.plan g s = .error e)
    (order : List Region → List Region) (signal : Bool) :
    session.compileInOrder order g s signal = ⟨.error e, .start s signal⟩ := by
  unfold Session.compileInOrder
  rw [hplan]

/-- Nothing but a missing semaphore breaks a compilation down, and that only once there is a plan. -/
theorem outcome_eq_crashed_iff :
    (session.compileInOrder order g s signal).outcome = .crashed ↔
      (∃ plan, session.plan g s = .ok plan) ∧ session.config.hasSemaphore = false := by
  cases hplan : session.plan g s with
  | error e => simp [compileInOrder_of_unplanned hplan]
  | ok plan =>
    cases hsemaphore : session.config.hasSemaphore with
    | true => simp [compileInOrder_of_plan hplan hsemaphore]
    | false => simp [compileInOrder_of_crowded hplan hsemaphore]

/-- Behind an executable there are a plan and a semaphore. -/
theorem exists_plan_of_compile {executable : Executable}
    (h : (session.compileInOrder order g s signal).outcome = .ok executable) :
    (∃ plan, session.plan g s = .ok plan) ∧ session.config.hasSemaphore = true := by
  cases hplan : session.plan g s with
  | error e =>
    rw [compileInOrder_of_unplanned hplan] at h
    cases h
  | ok plan =>
    refine ⟨⟨plan, rfl⟩, ?_⟩
    cases hsemaphore : session.config.hasSemaphore with
    | true => rfl
    | false =>
      rw [compileInOrder_of_crowded hplan hsemaphore] at h
      cases h

end

/-! ## Builds one after another -/

/-- What holds after the builds of the regions `done`. As long as none has failed the progress keeps
`P`, and the artifact of each region is `Good` for it; the first failure is `Bad`. -/
structure Tally (P : Progress → Prop) (Good : Region → Artifact → Prop) (Bad : CompileError → Prop)
    (done : List Region) (p : Progress) : Prop where
  keeps : p.error? = none → P p
  built_of_mem : p.error? = none → ∀ r ∈ done, ∃ a, (r.index, a) ∈ p.built
  good_of_mem : p.error? = none → ∀ entry ∈ p.built, ∃ r ∈ done, r.index = entry.1 ∧ Good r entry.2
  bad : ∀ e, p.error? = some e → Bad e

section Tally

variable {P P' : Progress → Prop} {Good : Region → Artifact → Prop} {Bad : CompileError → Prop}
variable {done : List Region} {p : Progress} {r : Region} {result : BuildResult}

theorem Tally.start {s : Settings} {signal : Bool} (h : P (.start s signal)) :
    Tally P Good Bad [] (.start s signal) where
  keeps _ := h
  built_of_mem _ := by simp
  good_of_mem _ := by simp [Progress.start]
  bad e he := by cases he

theorem add_of_ok {a : Artifact} (h : result.outcome = .ok a) :
    (p.add r.index result).built = p.built ++ [(r.index, a)] ∧
      (p.add r.index result).error? = p.error? := by
  unfold Progress.add
  rw [h]
  exact ⟨rfl, rfl⟩

theorem add_of_error {e : BuildError} (h : result.outcome = .error e) :
    (p.add r.index result).error? = p.error?.or (some (.ofBuild e)) := by
  unfold Progress.add
  rw [h]

/-- Which regions are done matters, in which order they were built does not: each field of `Tally`
speaks of `done` by membership only. -/
theorem Tally.congr {done' : List Region} {p' : Progress} (h : Tally P Good Bad done p)
    (hdone : ∀ r, r ∈ done' ↔ r ∈ done) (hbuilt : p'.built = p.built) (herror : p'.error? = p.error?)
    (hkeeps : p.error? = none → P p → P' p') : Tally P' Good Bad done' p' where
  keeps hnone := by
    rw [herror] at hnone
    exact hkeeps hnone (h.keeps hnone)
  built_of_mem hnone r hr := by
    rw [herror] at hnone
    rw [hbuilt]
    exact h.built_of_mem hnone r ((hdone r).mp hr)
  good_of_mem hnone entry hentry := by
    rw [herror] at hnone
    rw [hbuilt] at hentry
    obtain ⟨r, hr, hgood⟩ := h.good_of_mem hnone entry hentry
    exact ⟨r, (hdone r).mpr hr, hgood⟩
  bad e he := h.bad e (by rw [← herror, he])

theorem add_shared (p : Progress) (region : Nat) (result : BuildResult) :
    (p.add region result).signal = result.signal ∧
      (p.add region result).calibrator = result.calibrator := by
  unfold Progress.add
  cases result.outcome <;> exact ⟨rfl, rfl⟩

/-- One more build. What it has to be like matters only when no build before it has failed: after an
error neither `P` nor the artifacts are spoken of, and the first error stays. -/
theorem Tally.add (h : Tally P Good Bad done p)
    (hok : p.error? = none → P p → ∀ a, result.outcome = .ok a →
      P' (p.add r.index result) ∧ Good r a)
    (hbad : p.error? = none → P p → ∀ e, result.outcome = .error e → Bad (.ofBuild e)) :
    Tally P' Good Bad (done ++ [r]) (p.add r.index result) := by
  cases herror : p.error? with
  | some first =>
    -- the first error stays
    have hsame : (p.add r.index result).error? = some first := by
      cases hresult : result.outcome with
      | ok a => rw [(add_of_ok hresult).2, herror]
      | error e => rw [add_of_error hresult, herror, Option.some_or]
    have hne : (p.add r.index result).error? ≠ none := by
      rw [hsame]
      exact Option.some_ne_none first
    exact {
      keeps := fun hnone => absurd hnone hne
      built_of_mem := fun hnone => absurd hnone hne
      good_of_mem := fun hnone => absurd hnone hne
      bad := fun e he => h.bad e (by rw [herror, ← hsame, he]) }
  | none =>
    have hP := h.keeps herror
    cases hresult : result.outcome with
    | error e =>
      have hsome : (p.add r.index result).error? = some (.ofBuild e) := by
        rw [add_of_error hresult, herror, Option.none_or]
      have hne : (p.add r.index result).error? ≠ none := by
        rw [hsome]
        exact Option.some_ne_none _
      refine ⟨fun hnone => absurd hnone hne, fun hnone => absurd hnone hne,
        fun hnone => absurd hnone hne, fun e' he' => ?_⟩
      rw [hsome] at he'
      cases he'
      exact hbad herror hP e hresult
    | ok a =>
      obtain ⟨hbuilt, hnone⟩ := add_of_ok (p := p) (r := r) hresult
      rw [herror] at hnone
      obtain ⟨hkeeps, hgood⟩ := hok herror hP a hresult
      refine ⟨fun _ => hkeeps, fun _ r' hr' => ?_, fun _ entry hentry => ?_, fun e he => ?_⟩
      · rw [hbuilt]
        rcases List.mem_append.mp hr' with hr' | hr'
        · obtain ⟨a', ha'⟩ := h.built_of_mem herror r' hr'
          exact ⟨a', List.mem_append_left _ ha'⟩
        · rw [List.mem_singleton.mp hr']
          exact ⟨a, List.mem_append_right _ (List.mem_singleton_self _)⟩
      · rw [hbuilt] at hentry
        rcases List.mem_append.mp hentry with hentry | hentry
        · obtain ⟨r', hr', hindex, hgood'⟩ := h.good_of_mem herror entry hentry
          exact ⟨r', List.mem_append_left _ hr', hindex, hgood'⟩
        · rw [List.mem_singleton.mp hentry]
          exact ⟨r, List.mem_append_right _ (List.mem_singleton_self _), rfl, hgood⟩
      · rw [hnone] at he
        cases he

/-- What one more build of a session has to be like, when none before it has failed. -/
def KeepsTally (P P' : Progress → Prop) (Good : Region → Artifact → Prop)
    (Bad : CompileError → Prop) (session : Session) (g : ValidGraph) (s : Settings) (r : Region) :
    Prop :=
  ∀ p : Progress, p.error? = none → P p → ∀ result : BuildResult,
    build session.backend g r { s with calibrator := p.calibrator } (session.budget false)
      p.signal = result →
    (∀ a, result.outcome = .ok a → P' (p.add r.index result) ∧ Good r a) ∧
      ∀ e, result.outcome = .error e → Bad (.ofBuild e)

variable {session : Session} {g : ValidGraph} {s : Settings} {signal : Bool} {order : List Region}

/-- One more build of a session, if `KeepsTally` holds of it. -/
theorem Tally.buildNext (h : Tally P Good Bad done p)
    (hr : KeepsTally P P' Good Bad session g s r) :
    Tally P' Good Bad (done ++ [r]) (session.buildNext g s p r) := by
  refine h.add (fun hnone hP => ?_) (fun hnone hP => ?_)
  · rw [hnone, Option.isSome_none]
    exact (hr p hnone hP _ rfl).1
  · rw [hnone, Option.isSome_none]
    exact (hr p hnone hP _ rfl).2

/-- One build after another. Induction on the builds that are left. -/
theorem Tally.foldl {left : List Region} (h : Tally P Good Bad done p)
    (hleft : ∀ r ∈ left, KeepsTally P P Good Bad session g s r) :
    Tally P Good Bad (done ++ left) (left.foldl (session.buildNext g s) p) := by
  induction left generalizing done p with
  | nil => rwa [List.append_nil]
  | cons r rest ih =>
    have hnext := h.buildNext (hleft r List.mem_cons_self)
    have hrest := ih hnext fun r' hr' => hleft r' (List.mem_cons_of_mem r hr')
    rwa [List.append_assoc] at hrest

/-- All builds, in any order. This is how every property of a compilation is proved: as `KeepsTally`
of one build. -/
theorem tally_buildEach (hstart : P (.start s signal))
    (horder : ∀ r ∈ order, KeepsTally P P Good Bad session g s r) :
    Tally P Good Bad order (session.buildEach g s signal order) :=
  Tally.foldl (.start hstart) horder

/-- Where no build has failed each region that is done has an artifact, found by its number, that
was good for a region of this number. -/
theorem Tally.exists_artifact? (h : Tally P Good Bad done p) (herror : p.error? = none)
    (hr : r ∈ done) :
    ∃ a, p.artifact? r.index = some a ∧ ∃ r' ∈ done, r'.index = r.index ∧ Good r' a := by
  obtain ⟨some', hsome'⟩ := h.built_of_mem herror r hr
  have hfound : (p.built.lookup r.index).isSome := by
    rw [List.lookup_isSome_iff]
    exact ⟨_, hsome', beq_self_eq_true r.index⟩
  obtain ⟨a, ha⟩ := Option.isSome_iff_exists.mp hfound
  obtain ⟨before, after, hsplit, _⟩ := List.lookup_eq_some_iff.mp ha
  have hmem : (r.index, a) ∈ p.built := by
    rw [hsplit]
    exact List.mem_append_right _ List.mem_cons_self
  exact ⟨a, ha, h.good_of_mem herror _ hmem⟩

end Tally

/-! ## The executable -/

/-- The artifact of a region: what was built for it, or its operators where it is general. -/
def Progress.artifactOf? (p : Progress) (r : Region) : Option Artifact :=
  if r.isAccelerator then p.artifact? r.index else some (.ofGeneral r)

/-- The metrics once the artifact of a region is taken in. -/
def Metrics.gather (m : Metrics) (r : Region) (a : Artifact) : Metrics :=
  match a.engine? with
  | some (_, report) => m.record r.operators.length report
  | none => m

section Assemble

variable {p : Progress} {r : Region} {regions : List Region} {artifacts : List Artifact}

/-- A region with an artifact becomes a segment with it. -/
theorem assembleRegion_eq_ok {a : Artifact} (h : p.artifactOf? r = some a) (m : Metrics) :
    Session.assembleRegion p m r = .ok (.ofRegion r a, m.gather r a) := by
  unfold Progress.artifactOf? at h
  unfold Session.assembleRegion
  split at h
  · next haccelerator =>
    rw [if_pos haccelerator, h]
    rfl
  · next hgeneral =>
    rw [if_neg hgeneral]
    cases h
    rfl

/-- Regions with artifacts become segments in their order, and their metrics are gathered on the
way. Induction on the regions. -/
theorem assembleRegions_eq_ok
    (h : List.Forall₂ (fun r a => p.artifactOf? r = some a) regions artifacts) (m : Metrics) :
    Session.assembleRegions p m regions =
      .ok (List.zipWith .ofRegion regions artifacts,
        (regions.zip artifacts).foldl (fun m x => m.gather x.1 x.2) m) := by
  induction h generalizing m with
  | nil => rfl
  | @cons r a rest others hr _ ih =>
    rw [Session.assembleRegions, assembleRegion_eq_ok hr]
    show (Session.assembleRegions p (m.gather r a) rest >>= fun x =>
      pure (Segment.ofRegion r a :: x.1, x.2)) = _
    rw [ih]
    rfl

/-- Two relations that hold of lists item by item hold of one item together. Induction on the lists.
-/
theorem exists_both {α β : Type} {R R' : α → β → Prop} {xs : List α} {ys : List β}
    (h : List.Forall₂ R xs ys) (h' : List.Forall₂ R' xs ys) {x : α} (hx : x ∈ xs) :
    ∃ y, R x y ∧ R' x y := by
  induction h with
  | nil => cases hx
  | cons hr _ ih =>
    obtain _ | ⟨hr', hrest'⟩ := h'
    rcases List.mem_cons.mp hx with rfl | hx
    · exact ⟨_, hr, hr'⟩
    · exact ih hrest' hx

/-- What holds of regions and artifacts holds of regions and segments. Induction on the regions. -/
theorem forall₂_segments {R : Region → Artifact → Prop} (h : List.Forall₂ R regions artifacts) :
    List.Forall₂ (fun r s => ∃ a, s = Segment.ofRegion r a ∧ R r a) regions
      (List.zipWith .ofRegion regions artifacts) := by
  induction h with
  | nil => exact .nil
  | cons hr _ ih => exact .cons ⟨_, rfl, hr⟩ ih

/-- The metrics of a plan with its artifacts. -/
def Metrics.ofPlan (plan : Plan) (artifacts : List Artifact) : Metrics :=
  (plan.regions.zip artifacts).foldl (fun m x => m.gather x.1 x.2)
    (.new plan.regions.length plan.operatorCount)

/-- The executable of a plan with its artifacts. -/
def Executable.ofPlan (g : ValidGraph) (plan : Plan) (artifacts : List Artifact) : Executable :=
  ⟨g.name, g.inputs, g.outputs, List.zipWith .ofRegion plan.regions artifacts,
    .ofPlan plan artifacts⟩

/-- What a region gets, when `Good` says which engines are good for it. -/
def Gets (Good : Region → Artifact → Prop) (r : Region) (a : Artifact) : Prop :=
  if r.isAccelerator = true then Good r a else a = .ofGeneral r

theorem Gets.imp {Good Good' : Region → Artifact → Prop} {a : Artifact} (h : Gets Good r a)
    (himp : ∀ a, Good r a → Good' r a) : Gets Good' r a := by
  unfold Gets at h ⊢
  split
  · next haccelerator =>
    rw [if_pos haccelerator] at h
    exact himp a h
  · next hgeneral => rwa [if_neg hgeneral] at h

theorem isEngine_of_gets {Good : Region → Artifact → Prop} {a : Artifact}
    (hengine : ∀ r a, Good r a → a.isEngine = true) (h : Gets Good r a) :
    a.isEngine = r.isAccelerator := by
  unfold Gets at h
  split at h
  · next haccelerator => rw [hengine r a h, haccelerator]
  · next hgeneral =>
    rw [h, Bool.eq_false_iff.mpr hgeneral]
    rfl

/-- The regions of a plan are told apart by their numbers. -/
theorem nodup_index_ofRuns (g : ValidGraph) (runs : List Run) :
    ((Plan.ofRuns g runs).regions.map Region.index).Nodup := by
  rw [Plan.ofRuns, Run.map_index_toRegions]
  exact List.nodup_range'

theorem eq_of_index_eq {g : ValidGraph} {runs : List Run} {r r' : Region}
    (hr : r ∈ (Plan.ofRuns g runs).regions) (hr' : r' ∈ (Plan.ofRuns g runs).regions)
    (h : r.index = r'.index) : r = r' :=
  List.inj_on_of_nodup_map (nodup_index_ofRuns g runs) hr hr' h

theorem nodup_acceleratorRegions {session : Session} {g : ValidGraph} {s : Settings} {plan : Plan}
    (hne : g.operators ≠ []) (hplan : session.plan g s = .ok plan) :
    plan.acceleratorRegions.Nodup := by
  obtain ⟨runs, rfl, -⟩ := exists_runs_of_partition hne (plan_eq_ok_iff.mp hplan).2
  exact (List.Nodup.of_map _ (nodup_index_ofRuns g runs)).filter _

theorem nodup_order {session : Session} {g : ValidGraph} {s : Settings} {plan : Plan}
    {order : List Region → List Region} (hne : g.operators ≠ [])
    (hplan : session.plan g s = .ok plan) (horder : ∀ rs, (order rs).Perm rs) :
    (order plan.acceleratorRegions).Nodup :=
  (horder _).nodup_iff.mpr (nodup_acceleratorRegions hne hplan)

/-- Where no build has failed, every region has what it should get. The engine that is found by the
number of a region was built for this region and no other, by `eq_of_index_eq`. -/
theorem Tally.exists_artifacts {g : ValidGraph} {runs : List Run} {P : Progress → Prop}
    {Good : Region → Artifact → Prop} {Bad : CompileError → Prop}
    (h : Tally P Good Bad regions p) (herror : p.error? = none)
    (hperm : regions.Perm (Plan.ofRuns g runs).acceleratorRegions) :
    ∃ artifacts,
      List.Forall₂ (fun r a => p.artifactOf? r = some a) (Plan.ofRuns g runs).regions artifacts ∧
        List.Forall₂ (Gets Good) (Plan.ofRuns g runs).regions artifacts := by
  have hartifact : ∀ r ∈ (Plan.ofRuns g runs).regions,
      ∃ a, p.artifactOf? r = some a ∧ Gets Good r a := by
    intro r hr
    unfold Progress.artifactOf? Gets
    by_cases haccelerator : r.isAccelerator = true
    · have hbuilt := hperm.mem_iff.mpr (List.mem_filter.mpr ⟨hr, haccelerator⟩)
      obtain ⟨a, ha, r', hr', hindex, hgood⟩ := h.exists_artifact? herror hbuilt
      -- the engine was built for this region and no other
      have hsame : r' = r :=
        eq_of_index_eq (List.mem_filter.mp (hperm.mem_iff.mp hr')).1 hr hindex
      subst hsame
      exact ⟨a, by rw [if_pos haccelerator, ha], by rwa [if_pos haccelerator]⟩
    · exact ⟨.ofGeneral r, by rw [if_neg haccelerator], by rw [if_neg haccelerator]⟩
  obtain ⟨artifacts, hartifacts⟩ := exists_forall₂_iff.mpr hartifact
  exact ⟨artifacts, hartifacts.imp fun _ _ h => h.1, hartifacts.imp fun _ _ h => h.2⟩

/-- Where each region has an artifact of the right kind there is an executable: the check that comes
last passes by `check_eq_ok_of_mirrors`. -/
theorem assemble_eq_ok {g : ValidGraph} {runs : List Run} (h : g.Sound)
    (htiles : Run.Tiles 0 runs g.operators.length) (herror : p.error? = none)
    (hfound : List.Forall₂ (fun r a => p.artifactOf? r = some a) (Plan.ofRuns g runs).regions
      artifacts)
    (hkinds : List.Forall₂ (fun r a => Artifact.isEngine a = r.isAccelerator)
      (Plan.ofRuns g runs).regions artifacts) :
    Session.assemble g (Plan.ofRuns g runs) p =
      .ok (.ofPlan g (Plan.ofRuns g runs) artifacts) := by
  have hcheck : (Executable.ofPlan g (Plan.ofRuns g runs) artifacts).check = .ok () :=
    check_eq_ok_of_mirrors h htiles (forall₂_segments hkinds) _
  have hassembled := assembleRegions_eq_ok hfound
    (.new (Plan.ofRuns g runs).regions.length (Plan.ofRuns g runs).operatorCount)
  unfold Session.assemble
  rw [herror]
  refine bind_eq_ok_iff.mpr ⟨_, hassembled, ?_⟩
  rw [Executable.ofPlan, Metrics.ofPlan] at hcheck
  simp only [hcheck]
  rfl

/-- What is put together after some builds: the executable of the plan, with what each region
should get, or the first error. -/
theorem Tally.assemble_cases {session : Session} {g : ValidGraph} {s : Settings} {plan : Plan}
    {P : Progress → Prop} {Good : Region → Artifact → Prop} {Bad : CompileError → Prop}
    (htally : Tally P Good Bad regions p) (h : g.Sound) (hplan : session.plan g s = .ok plan)
    (hperm : regions.Perm plan.acceleratorRegions)
    (hengine : ∀ r a, Good r a → a.isEngine = true) :
    (∃ artifacts, List.Forall₂ (Gets Good) plan.regions artifacts ∧
        Session.assemble g plan p = .ok (.ofPlan g plan artifacts)) ∨
      ∃ e, Session.assemble g plan p = .error e ∧ Bad e := by
  obtain ⟨runs, rfl, htiles, -⟩ :=
    exists_runs_of_partition h.operators_ne_nil (plan_eq_ok_iff.mp hplan).2
  cases herror : p.error? with
  | some e =>
    refine Or.inr ⟨e, ?_, htally.bad e herror⟩
    rw [Session.assemble, herror]
    rfl
  | none =>
    obtain ⟨artifacts, hfound, hgets⟩ := htally.exists_artifacts herror hperm
    have hkinds := hgets.imp fun _ _ hget => isEngine_of_gets hengine hget
    exact Or.inl ⟨artifacts, hgets, assemble_eq_ok h htiles herror hfound hkinds⟩

/-- A compilation with a semaphore for its builds ends with what is put together after all of them:
the executable of its plan, with what each region should get, or the first error. -/
theorem Tally.compile_cases {session : Session} {g : ValidGraph} {s : Settings} {plan : Plan}
    {P : Progress → Prop} {Good : Region → Artifact → Prop} {Bad : CompileError → Prop}
    {order : List Region → List Region} {signal : Bool}
    (htally : Tally P Good Bad (order plan.acceleratorRegions)
      (session.buildEach g s signal (order plan.acceleratorRegions))) (h : g.Sound)
    (hplan : session.plan g s = .ok plan) (hsemaphore : session.config.hasSemaphore = true)
    (horder : ∀ rs, (order rs).Perm rs) (hengine : ∀ r a, Good r a → a.isEngine = true) :
    (∃ artifacts, List.Forall₂ (Gets Good) plan.regions artifacts ∧
        (session.compileInOrder order g s signal).outcome = .ok (.ofPlan g plan artifacts)) ∨
      ∃ e, (session.compileInOrder order g s signal).outcome = .error e ∧ Bad e := by
  rw [compileInOrder_of_plan hplan hsemaphore]
  simp only [CompileOutcome.ofExcept_eq_ok_iff, CompileOutcome.ofExcept_eq_error_iff]
  exact htally.assemble_cases h hplan (horder _) hengine

end Assemble

end HybridCompile
