import HybridCompile.Proofs.Compile.Internal
import HybridCompile.Proofs.Concurrency.Invariant
import HybridCompile.Proofs.Concurrency.Sequential
import HybridCompile.Proofs.Partition.Placement

/-!
# HybridCompile — the root cause of a failed compilation

The first failure that a compilation takes in fires the token, and builds that are still under way
are cancelled by it. The answer is nevertheless a failure of some region's own: until a failure is
taken in the token is not fired, so that no build is cancelled before.

* `Stage.OnCourse`, `Invariant.rootCause` — the invariant; `TaskStep.onCourse`, `inductive_rootCause`.
* `Compilation.RootCause` — an answer that says what went wrong by itself.
* `answers_rootCause` — every interleaving ends with such an answer.
-/

namespace HybridCompile

/-- The build of a region that nothing has stopped: it comes out, or has come out, as when it is
built alone. -/
def Stage.OnCourse (session : Session) (g : ValidGraph) (s : Settings) (r : Region) : Stage → Prop
  | .running n w t => lower g r s = .ok n ∧
    ∃ e, (session.backend.work n (.ofSettings s)).Settles e s.ownArena ∧
      w.Settles e t.context.arena
  | .ended result => failure? result.outcome = failure? (buildAlone session.backend g s r) ∧
    ∀ a, result.outcome = .ok a → a.isEngine = true
  | _ => True

/-- An artifact for a region that is built alone without failing. -/
def GoodFor (session : Session) (g : ValidGraph) (s : Settings) (r : Region) (a : Artifact) : Prop :=
  failure? (buildAlone session.backend g s r) = none ∧ a.isEngine = true

/-- An error that the build of a region of the plan makes when it is built alone. -/
def OwnFailure (session : Session) (g : ValidGraph) (s : Settings) (plan : Plan) (e : CompileError) :
    Prop :=
  ∃ r ∈ plan.acceleratorRegions, ∃ e', buildAlone session.backend g s r = .error e' ∧
    e'.region = r.index ∧ e = .ofBuild e' ∧ e.isCancelled = false

/-- As long as the caller's signal is not fired, every build is on course until a failure is taken
in, and what is taken in is the regions' own. -/
def Invariant.rootCause (session : Session) (g : ValidGraph) (s : Settings) (plan : Plan) :
    Invariant where
  stage p r stage := p.signal = false → p.error? = none → stage.OnCourse session g s r
  taken done p := p.signal = false →
    Tally (fun _ => True) (GoodFor session g s) (OwnFailure session g s plan) done p

section

variable {session : Session} {g : ValidGraph} {s : Settings} {plan : Plan} {permits : Nat}
variable {r : Region} {stage stage' : Stage} {p p' : Progress}

/-- Until its result is taken in, a task leaves what was taken in as it is. -/
theorem TaskStep.built_eq (h : TaskStep session g s r stage p stage' p') (hgoes : stage' ≠ .joined) :
    p'.built = p.built ∧ p'.error? = p.error? := by
  cases h with
  | begin | work | finish => exact ⟨rfl, rfl⟩
  | join => exact absurd rfl hgoes

theorem error?_of_join {result : BuildResult} (h : (p.join r result).error? = none) :
    p.error? = none := by
  unfold Progress.join Progress.add at h
  cases houtcome : result.outcome with
  | ok a =>
    rw [houtcome] at h
    exact h
  | error e =>
    rw [houtcome] at h
    exact (Option.or_eq_none_iff.mp h).1

/-- A signal and a failure, once there, stay. So if there is none after a step there was none before
it. -/
theorem TaskStep.calm_before (h : TaskStep session g s r stage p stage' p') :
    (p'.signal = false → p.signal = false) ∧ (p'.error? = none → p.error? = none) := by
  cases h with
  | begin | finish => exact ⟨id, id⟩
  | work hstep =>
    refine ⟨fun hsignal => ?_, id⟩
    -- the step began with the signal of the progress
    by_contra hfired
    have hstays := Work.step_signal hstep (Bool.eq_true_of_not_eq_false hfired)
    exact Bool.false_ne_true (hsignal.symm.trans hstays)
  | join result =>
    refine ⟨fun hsignal => ?_, error?_of_join⟩
    rwa [Progress.join, (add_shared _ _ _).1] at hsignal

section OnCourse

variable (hbackend : session.backend.Settled) (htimeout : session.config.buildTimeoutMs = none)

include htimeout in
theorem budget_neverStops : (session.budget false).NeverStops false := by
  intro clock
  simp [Session.budget, BuildBudget.check, htimeout]

include hbackend htimeout

/-- A step of a task keeps its build on course, when neither the signal nor the token is fired. The
work still settles on one end by `Settles.step`, since what is shared may have changed meanwhile and
the arena has not. -/
theorem TaskStep.onCourse (hlower : ∃ n, lower g r s = .ok n)
    (h : TaskStep session g s r stage p stage' p') (hsignal : p.signal = false)
    (herror : p.error? = none) (hstage : stage.OnCourse session g s r) :
    stage'.OnCourse session g s r := by
  have hpasses := budget_neverStops htimeout
  cases h with
  | begin =>
    obtain ⟨n, hn⟩ := hlower
    obtain ⟨e, -, hsettles⟩ := hbackend n (.ofSettings s) s.ownArena
    rw [Session.enter_of_lower hn, herror, hsignal, Option.isSome_none, hpasses 0]
    exact ⟨hn, e, hsettles, hsettles⟩
  | @work n w w' t t' _ hstep =>
    obtain ⟨hn, e, hwhole, hsettles⟩ := hstage
    -- what is shared may have changed meanwhile, the arena has not
    have hsettles : w.Settles e (session.resume s p t).context.arena := hsettles
    have hcheck : (session.resume s p t).context.checkpoint.2 = none := by
      show (session.budget p.error?.isSome).check p.signal t.context.clock = none
      rw [herror, hsignal]
      exact hpasses _
    exact ⟨hn, e, hwhole, hsettles.step hstep hcheck⟩
  | @finish n w t e' _ hend =>
    obtain ⟨hn, e, hwhole, hsettles⟩ := hstage
    have halike := hsettles.alike hend
    refine ⟨?_, fun a ha => ?_⟩
    · exact (failure?_outcomeOf halike _ _ _ _ _ _).trans (failure?_buildAlone hn hwhole s.ownArena
        t.context.close t.context.clock)
    · have ha : outcomeOf session.backend n s.ownArena t.context.close t.context.clock e' = .ok a :=
        ha
      cases e' with
      | engine bytes =>
        cases ha
        rfl
      | failure cause => cases cause <;> cases ha
      | crashed => cases ha
  | join => exact True.intro

omit htimeout in
/-- What a build on course leaves is taken in as the region's own. An error comes from `buildAlone`,
so that it names the region and is not a cancellation. -/
theorem tally_join {done : List Region} {result : BuildResult}
    (hr : r ∈ plan.acceleratorRegions) (hlower : ∃ n, lower g r s = .ok n)
    (hstage : p.error? = none → (Stage.ended result).OnCourse session g s r)
    (h : Tally (fun _ => True) (GoodFor session g s) (OwnFailure session g s plan) done p) :
    Tally (fun _ => True) (GoodFor session g s) (OwnFailure session g s plan) (done ++ [r])
      (p.join r result) := by
  refine h.add (fun herror _ a ha => ⟨trivial, ?_⟩) (fun herror _ e he => ?_)
  · obtain ⟨hown, hengine⟩ := hstage herror
    have ha : result.outcome = .ok a := ha
    rw [ha] at hown
    exact ⟨hown.symm, hengine a ha⟩
  · obtain ⟨hown, -⟩ := hstage herror
    have he : result.outcome = .error e := he
    rw [he] at hown
    have halone : buildAlone session.backend g s r = .error e := failure?_eq_some_iff.mp hown.symm
    obtain ⟨n, hn⟩ := hlower
    obtain ⟨hnot, hregion⟩ := buildAlone_error hbackend hn halone
    refine ⟨r, hr, e, halone, hregion, rfl, ?_⟩
    cases e <;> first | rfl | cases hnot

end OnCourse

-- What is claimed is claimed under a condition on the progress after the step. A signal or a failure
-- that is not there after the step was not there before it, so what was claimed before can be used.
/-- Every step of a task keeps the invariant: its own stage by `TaskStep.onCourse`, what is taken in
by `tally_join`, and other tasks because signal and failures only come. -/
theorem inductive_rootCause (hbackend : session.backend.Settled)
    (htimeout : session.config.buildTimeoutMs = none)
    (hlower : ∀ r ∈ plan.acceleratorRegions, ∃ n, lower g r s = .ok n) :
    (Invariant.rootCause session g s plan).Inductive session g s plan where
  grant _ _ _ := True.intro
  step hr hstep hstage _ hsignal' herror' := by
    obtain ⟨hsignal, herror⟩ := hstep.calm_before
    have hcourse := hstage (hsignal hsignal') (herror herror')
    exact hstep.onCourse hbackend htimeout (hlower _ hr) (hsignal hsignal') (herror herror') hcourse
  frame hstep _ hother hsignal' herror' := by
    obtain ⟨hsignal, herror⟩ := hstep.calm_before
    exact hother (hsignal hsignal') (herror herror')
  go hstep hgoes _ htaken hsignal' := by
    obtain ⟨hbuilt, herror⟩ := hstep.built_eq hgoes
    have htally := htaken (hstep.calm_before.1 hsignal')
    exact htally.congr (fun _ => Iff.rfl) hbuilt herror fun _ _ => trivial
  join hr hstage htaken hsignal' := by
    have hsignal := (add_shared _ _ _).1.symm.trans hsignal'
    exact tally_join hbackend hr (hlower _ hr) (hstage hsignal) (htaken hsignal)

end

/-! ## Answers -/

/-- An answer that says what went wrong by itself: there is an executable if no region fails when it
is built alone; else the error is that of a region that fails, and no cancellation. -/
structure Compilation.RootCause (session : Session) (g : ValidGraph) (s : Settings) (plan : Plan)
    (outcome : Except CompileError Executable) : Prop where
  ok_iff : (∃ executable, outcome = .ok executable) ↔
    ∀ r ∈ plan.acceleratorRegions, ∃ a, buildAlone session.backend g s r = .ok a
  of_error : ∀ e, outcome = .error e → e.isCancelled = false ∧
    ∃ r ∈ plan.acceleratorRegions, ∃ e', buildAlone session.backend g s r = .error e' ∧
      e'.region = r.index ∧ e = .ofBuild e'

section

variable {raw : Graph} {g : ValidGraph} {s : Settings} {session : Session} {plan : Plan}

/-- What is put together after all builds is the root cause: an executable if none failed, and else
the first failure, which is a region's own. -/
theorem rootCause_assemble {p : Progress} (h : g.Sound) (hplan : session.plan g s = .ok plan)
    (htally : Tally (fun _ => True) (GoodFor session g s) (OwnFailure session g s plan)
      plan.acceleratorRegions p) :
    Compilation.RootCause session g s plan (Session.assemble g plan p) := by
  rcases htally.assemble_cases h hplan (.refl _) (fun _ _ hgood => hgood.2) with
    ⟨artifacts, hgets, hok⟩ | ⟨e, herror, r, hr, e', halone, hregion, rfl, hnot⟩
  · rw [hok]
    refine ⟨⟨fun _ r hr => ?_, fun _ => ⟨_, rfl⟩⟩, fun e he => (by cases he)⟩
    obtain ⟨hmem, haccelerator⟩ := List.mem_filter.mp hr
    obtain ⟨a, hget, -⟩ := exists_both hgets hgets hmem
    rw [Gets, if_pos haccelerator] at hget
    exact failure?_eq_none_iff.mp hget.1
  · rw [herror]
    refine ⟨⟨fun ⟨_, hok⟩ => (by cases hok), fun hall => ?_⟩, fun e he => ?_⟩
    · obtain ⟨a, ha⟩ := hall r hr
      rw [halone] at ha
      cases ha
    · cases he
      exact ⟨hnot, r, hr, e', halone, hregion, rfl⟩

/-- Every interleaving of the builds of a plan comes to an answer, with as many builds at one time
as there are permits. If the caller's signal is not fired and no timeout is set, every task is taken
in by then and the answer is the root cause. The compilations that build one region after another
are among these interleavings, if there is a semaphore for their builds. -/
theorem Compilation.answers_rootCause (h : raw.validate = .ok g)
    (hplan : session.plan g s = .ok plan) (hbackend : session.backend.Settled)
    (htimeout : session.config.buildTimeoutMs = none) {permits : Nat} (hpermits : 0 < permits) :
    (WellFounded fun c' c => Step session g s plan permits c c') ∧
      (∀ c, Reaches session g s plan permits (.start plan s false) c →
        (c.answer? = none → ∃ c', Step session g s plan permits c c') ∧
        ∀ outcome, c.answer? = some outcome → c.progress.signal = false →
          c.tasks = plan.acceleratorRegions.map (fun r => (r, .joined)) ∧
            RootCause session g s plan outcome) ∧
      (session.config.hasSemaphore = true → ∀ order : List Region → List Region,
        (∀ rs, (order rs).Perm rs) →
          ∃ c outcome, Reaches session g s plan permits (.start plan s false) c ∧
            c.answer? = some outcome ∧
            (session.compileInOrder order g s false).outcome = .ofExcept outcome ∧
            c.progress = (session.compileInOrder order g s false).progress) := by
  have hsound := Graph.sound_of_validate h
  have hlower : ∀ r ∈ plan.acceleratorRegions, ∃ n, lower g r s = .ok n := fun r =>
    exists_lower_of_plan hsound hplan
  refine ⟨wellFounded_step, fun c hreaches => ⟨exists_step hpermits, ?_⟩,
    fun hsemaphore order horder => ?_⟩
  · intro outcome hanswer hsignal
    have hc : c.Keeps (.rootCause session g s plan) g plan :=
      Reaches.keeps (inductive_rootCause hbackend htimeout hlower) hreaches
        (keeps_start (fun _ _ _ => True.intro) fun _ => .start trivial)
    obtain ⟨htasks, rfl, done, hdone, htaken⟩ := hc.answer hanswer
    have htally : Tally (fun _ => True) (GoodFor session g s) (OwnFailure session g s plan)
        plan.acceleratorRegions c.progress :=
      (htaken hsignal).congr hdone rfl rfl fun _ _ => trivial
    exact ⟨htasks, rootCause_assemble hsound hplan htally⟩
  · obtain ⟨answer, houtcome, hreaches⟩ := reaches_compileInOrder hpermits
      hsound.operators_ne_nil hplan hsemaphore horder false
    exact ⟨_, answer, hreaches, rfl, houtcome, rfl⟩

end

/-! ## An instance

Of the two regions of the skipping graph for the accelerator, the second has a layer that the
backend rejects. However their builds run side by side, the answer names that layer. -/

/-- A session whose backend rejects `add`. -/
def withoutAdd : Session :=
  ⟨SupportTable.acceptAll.toOracle, (ReferenceBackend.mk (.ofList ["add"]) true 0 0).toBackend,
    .default⟩

/-- Every answer names the layer that is rejected, whichever of the two builds ends first. -/
theorem Compilation.answers_rootCause_skipping :
    let cause : BuildError :=
      .failed (.backend 2 "reference" (.layerRejected "e" "no converter for 'add'"))
    skipping.validate = .ok skippingValid ∧
      withoutAdd.plan skippingValid skippingSettings = .ok skippingPlan ∧
      withoutAdd.backend.Settled ∧ withoutAdd.config.buildTimeoutMs = none ∧ 0 < 2 ∧
      (∀ c outcome, Reaches withoutAdd skippingValid skippingSettings skippingPlan 2
          (.start skippingPlan skippingSettings false) c →
        c.answer? = some outcome → c.progress.signal = false → outcome = .error (.ofBuild cause)) ∧
      ∃ c, Reaches withoutAdd skippingValid skippingSettings skippingPlan 2
          (.start skippingPlan skippingSettings false) c ∧
        c.answer? = some (.error (.ofBuild cause)) := by
  intro cause
  have hvalid : skipping.validate = .ok skippingValid := by decide
  have hplan : withoutAdd.plan skippingValid skippingSettings = .ok skippingPlan := by
    decide +kernel
  have hbackend : withoutAdd.backend.Settled := settled_reference _
  obtain ⟨-, hruns, horders⟩ :=
    answers_rootCause hvalid hplan hbackend rfl (show 0 < 2 by decide)
  -- alone, the first region has no failure, and the second has this one
  have halone : ∀ r ∈ skippingPlan.acceleratorRegions,
      failure? (buildAlone withoutAdd.backend skippingValid skippingSettings r) = none ∨
        failure? (buildAlone withoutAdd.backend skippingValid skippingSettings r) = some cause := by
    decide +kernel
  have hfails : ∃ r ∈ skippingPlan.acceleratorRegions,
      failure? (buildAlone withoutAdd.backend skippingValid skippingSettings r) = some cause := by
    decide +kernel
  have hanswer : ∀ c outcome, Reaches withoutAdd skippingValid skippingSettings skippingPlan 2
      (.start skippingPlan skippingSettings false) c →
      c.answer? = some outcome → c.progress.signal = false → outcome = .error (.ofBuild cause) := by
    intro c outcome hreaches hsome hsignal
    obtain ⟨-, hroot⟩ := (hruns c hreaches).2 outcome hsome hsignal
    cases outcome with
    | ok executable =>
      obtain ⟨r, hr, hr'⟩ := hfails
      obtain ⟨a, ha⟩ := hroot.ok_iff.mp ⟨executable, rfl⟩ r hr
      rw [ha] at hr'
      cases hr'
    | error e =>
      obtain ⟨-, r, hr, e', he', -, rfl⟩ := hroot.of_error e rfl
      have hsome : some e' = some cause := by
        rcases halone r hr with hnone | hsome
        · rw [he'] at hnone
          cases hnone
        · rwa [he'] at hsome
      rw [Option.some.inj hsome]
  obtain ⟨c, outcome, hreaches, hc, -, hprogress⟩ := horders rfl id fun rs => .refl rs
  have hsignal : c.progress.signal = false := by
    rw [hprogress]
    decide +kernel
  exact ⟨hvalid, hplan, hbackend, rfl, by decide, hanswer, c, hreaches,
    by rw [hc, hanswer c outcome hreaches hc hsignal]⟩

end HybridCompile
