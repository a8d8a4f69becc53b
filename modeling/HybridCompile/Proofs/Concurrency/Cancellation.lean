import HybridCompile.Proofs.Compile.Internal
import HybridCompile.Proofs.Concurrency.Invariant
import HybridCompile.Proofs.Concurrency.Sequential
import HybridCompile.Proofs.Partition.Placement

/-!
# HybridCompile — a signal that is fired beforehand

When the caller's signal is fired before a compilation begins, no backend is asked for anything. The
signal is looked at by builds only: a plan with a region for the accelerator is cancelled, whatever
else the budget says, and a plan without one needs no engine and is compiled all the same. Nor is the
signal looked at before the semaphore for the builds is made.

* `Invariant.fired`, `inductive_fired` — no build begins.
* `fired_signal_cancels` — every interleaving, and every order of the builds.
* `Session.compile_fired_general` — a fired signal that stops nothing.
-/

namespace HybridCompile

/-- A fired signal comes before everything else that a budget may say. -/
theorem check_of_fired (session : Session) (failed : Bool) (clock : Nat) :
    (session.budget failed).check true clock = some .cancelled := by
  simp [Session.budget, BuildBudget.check]

/-- The build of a region has not begun, or was cancelled before it could. -/
def Stage.Unbegun (r : Region) : Stage → Prop
  | .running .. => False
  | .ended result =>
    result.outcome = .error (.cancelled r.index .cancelled) ∧ result.started = false
  | _ => True

/-- The answer of a compilation that was cancelled while a region of the plan was built. -/
def Plan.IsCancelled (plan : Plan) (e : CompileError) : Prop :=
  ∃ r ∈ plan.acceleratorRegions, e = .cancelled r.index .cancelled

/-- The answers that compilations of the plan give to a fired signal: without a region for the
accelerator there is nothing to cancel. -/
structure Plan.HeedsSignal (plan : Plan) (outcome : Except CompileError Executable) : Prop where
  cancelled : plan.acceleratorRegions ≠ [] → ∃ e, outcome = .error e ∧ plan.IsCancelled e
  compiled : plan.acceleratorRegions = [] → ∃ executable, outcome = .ok executable

/-- The signal is fired, no build has begun, and nothing but cancellations was taken in. -/
def Invariant.fired (plan : Plan) : Invariant where
  stage _ r stage := stage.Unbegun r
  taken done p := p.signal = true ∧ p.started = 0 ∧
    Tally (fun _ => True) (fun _ _ => False) plan.IsCancelled done p

section

variable {session : Session} {g : ValidGraph} {s : Settings} {plan : Plan}
variable {r : Region} {p : Progress}

theorem enter_of_fired (hlower : ∃ n, lower g r s = .ok n) (hsignal : p.signal = true) :
    session.enter g s r p =
      .ended ⟨.error (.cancelled r.index .cancelled), s.ownArena, p.signal, p.calibrator, [],
        false⟩ := by
  obtain ⟨n, hn⟩ := hlower
  rw [Session.enter_of_lower hn, hsignal, check_of_fired]

theorem started_join {result : BuildResult} (h : result.started = false) :
    (p.join r result).started = p.started := by
  unfold Progress.join Progress.add
  cases result.outcome <;> simp [h]

/-- A cancellation that is taken in is one of a region of the plan. -/
theorem tally_join_cancelled {done : List Region} {result : BuildResult}
    (hr : r ∈ plan.acceleratorRegions)
    (hresult : result.outcome = .error (.cancelled r.index .cancelled))
    (h : Tally (fun _ => True) (fun _ _ => False) plan.IsCancelled done p) :
    Tally (fun _ => True) (fun _ _ => False) plan.IsCancelled (done ++ [r]) (p.join r result) := by
  refine h.add (fun _ _ a ha => ?_) (fun _ _ e he => ?_)
  · have ha : result.outcome = .ok a := ha
    rw [hresult] at ha
    cases ha
  · have he : result.outcome = .error e := he
    rw [hresult] at he
    cases he
    exact ⟨r, hr, rfl⟩

/-- Every step of a task keeps the invariant: a task that begins is cancelled by `enter_of_fired`,
and so none ever builds. -/
theorem inductive_fired (hlower : ∀ r ∈ plan.acceleratorRegions, ∃ n, lower g r s = .ok n) :
    (Invariant.fired plan).Inductive session g s plan where
  grant _ := True.intro
  step hr hstep hstage htaken := by
    cases hstep with
    | begin =>
      -- the budget is looked at before the backend is put to work
      rw [enter_of_fired (hlower _ hr) htaken.1]
      exact ⟨rfl, rfl⟩
    | work | finish => exact hstage.elim
    | join => exact True.intro
  frame _ _ hother := hother
  go hstep hgoes hstage htaken := by
    cases hstep with
    | begin => exact htaken
    | work | finish => exact hstage.elim
    | join => exact absurd rfl hgoes
  join hr hstage htaken := by
    obtain ⟨hsignal, hstarted, htally⟩ := htaken
    obtain ⟨hresult, hidle⟩ := hstage
    refine ⟨(add_shared _ _ _).1.trans hsignal, ?_, tally_join_cancelled hr hresult htally⟩
    exact (started_join hidle).trans hstarted

/-- What is put together of nothing but cancellations heeds the signal. With a region for the
accelerator there is an error, since otherwise `Tally.exists_artifacts` would give it an artifact,
and none is good. -/
theorem heedsSignal_assemble (h : g.Sound) (hplan : session.plan g s = .ok plan)
    (htally : Tally (fun _ => True) (fun _ _ => False) plan.IsCancelled plan.acceleratorRegions p) :
    plan.HeedsSignal (Session.assemble g plan p) := by
  refine ⟨fun hsome => ?_, fun hnone => ?_⟩
  · cases herror : p.error? with
    | some e =>
      refine ⟨e, ?_, htally.bad e herror⟩
      rw [Session.assemble, herror]
      rfl
    | none =>
      -- without an error each region would have an artifact, and none is good
      obtain ⟨r, hr⟩ := List.exists_mem_of_ne_nil _ hsome
      obtain ⟨a, ha⟩ := htally.built_of_mem herror r hr
      obtain ⟨_, _, _, hgood⟩ := htally.good_of_mem herror _ ha
      exact hgood.elim
  · rcases htally.assemble_cases h hplan (.refl _) (fun _ _ hgood => hgood.elim) with
      ⟨artifacts, -, hok⟩ | ⟨e, -, r, hr, -⟩
    · exact ⟨_, hok⟩
    · rw [hnone] at hr
      cases hr

end

variable {raw : Graph} {g : ValidGraph} {s : Settings} {session : Session} {plan : Plan}

/-- With the caller's signal fired beforehand no build begins, however the tasks are interleaved; a
compilation with a region for the accelerator is cancelled, and one without is not (`HeedsSignal`).
So it is with every compilation that builds in some order, unless there is no semaphore for its
builds: then it breaks down, and no build begins either. -/
theorem Compilation.fired_signal_cancels (h : raw.validate = .ok g)
    (hplan : session.plan g s = .ok plan) {permits : Nat} (hpermits : 0 < permits) :
    (WellFounded fun c' c => Step session g s plan permits c c') ∧
      (∀ c, Reaches session g s plan permits (.start plan s true) c →
        (c.answer? = none → ∃ c', Step session g s plan permits c c') ∧
        (∀ task ∈ c.tasks, task.2.isRunning = false) ∧ c.progress.started = 0 ∧
        ∀ outcome, c.answer? = some outcome → plan.HeedsSignal outcome) ∧
      ∀ order : List Region → List Region, (∀ rs, (order rs).Perm rs) →
        (session.compileInOrder order g s true).progress.started = 0 ∧
        (session.config.hasSemaphore = true → ∃ outcome,
          (session.compileInOrder order g s true).outcome = .ofExcept outcome ∧
            plan.HeedsSignal outcome) ∧
        (session.config.hasSemaphore = false →
          (session.compileInOrder order g s true).outcome = .crashed) := by
  have hsound := Graph.sound_of_validate h
  have hlower : ∀ r ∈ plan.acceleratorRegions, ∃ n, lower g r s = .ok n := fun r =>
    exists_lower_of_plan hsound hplan
  have hruns : ∀ c, Reaches session g s plan permits (.start plan s true) c →
      (∀ task ∈ c.tasks, task.2.isRunning = false) ∧ c.progress.started = 0 ∧
        ∀ outcome, c.answer? = some outcome → plan.HeedsSignal outcome := by
    intro c hreaches
    have hc : c.Keeps (.fired plan) g plan :=
      Reaches.keeps (inductive_fired hlower) hreaches
        (keeps_start (fun _ => True.intro) ⟨rfl, rfl, .start trivial⟩)
    obtain ⟨_, _, -, hstarted, -⟩ := hc.taken
    refine ⟨fun task htask => ?_, hstarted, fun outcome hanswer => ?_⟩
    · have hunbegun := hc.stages task htask
      cases hstage : task.2 with
      | running n w t =>
        rw [hstage] at hunbegun
        exact hunbegun.elim
      | waiting | admitted | ended | joined => rfl
    · obtain ⟨-, rfl, done, hdone, -, -, htally⟩ := hc.answer hanswer
      exact heedsSignal_assemble hsound hplan (htally.congr hdone rfl rfl fun _ _ => trivial)
  refine ⟨wellFounded_step, fun c hreaches => ⟨exists_step hpermits, hruns c hreaches⟩, ?_⟩
  intro order horder
  cases hsemaphore : session.config.hasSemaphore with
  | true =>
    obtain ⟨answer, houtcome, hreaches⟩ :=
      reaches_compileInOrder hpermits hsound.operators_ne_nil hplan hsemaphore horder true
    obtain ⟨-, hstarted, hanswer⟩ := hruns _ hreaches
    exact ⟨hstarted, fun _ => ⟨answer, houtcome, hanswer _ rfl⟩, fun hcrowded => (by cases hcrowded)⟩
  | false =>
    rw [compileInOrder_of_crowded hplan hsemaphore]
    exact ⟨rfl, fun hthere => (by cases hthere), fun _ => rfl⟩

/-! ## Two instances

A fired signal is what the answer speaks of even when no time is left for a build either. -/

/-- A session with one permit and a timeout of no time at all. -/
def hurried : Session :=
  ⟨SupportTable.acceptAll.toOracle, ReferenceBackend.default.toBackend, ⟨some 1, some 0⟩⟩

/-- The skipping graph has regions for the accelerator, and its compilation is cancelled in every
order. -/
theorem Compilation.fired_signal_cancels_skipping :
    skipping.validate = .ok skippingValid ∧
      hurried.plan skippingValid skippingSettings = .ok skippingPlan ∧ 0 < 1 ∧
      ∀ order : List Region → List Region, (∀ rs, (order rs).Perm rs) →
        (hurried.compileInOrder order skippingValid skippingSettings true).progress.started = 0 ∧
        ∃ e, (hurried.compileInOrder order skippingValid skippingSettings true).outcome =
          .error e ∧ skippingPlan.IsCancelled e := by
  have hvalid : skipping.validate = .ok skippingValid := by decide
  have hplan : hurried.plan skippingValid skippingSettings = .ok skippingPlan := by decide +kernel
  refine ⟨hvalid, hplan, by decide, fun order horder => ?_⟩
  obtain ⟨-, -, horders⟩ := fired_signal_cancels hvalid hplan (show 0 < 1 by decide)
  obtain ⟨hstarted, hanswers, -⟩ := horders order horder
  obtain ⟨outcome, houtcome, hheeds⟩ := hanswers rfl
  obtain ⟨e, herror, hcancelled⟩ := hheeds.cancelled (by decide +kernel)
  exact ⟨hstarted, e, by rw [houtcome, herror, CompileOutcome.ofExcept_error], hcancelled⟩

/-- Settings under which no stretch of the graph is long enough for an engine. -/
def generalSettings : Settings :=
  { skippingSettings with fallback := ⟨true, 8, .ofList ["nms"], .empty⟩ }

/-- A plan in which everything falls back is compiled although the signal is fired. -/
theorem Session.compile_fired_general :
    skipping.validate = .ok skippingValid ∧
      (hurried.plan skippingValid generalSettings).isOk = true ∧
      (hurried.compile skippingValid generalSettings true).outcome.isOk = true ∧
      ¬∃ region, (hurried.compile skippingValid generalSettings true).outcome =
        .error (.cancelled region .cancelled) := by
  have hok : (hurried.compile skippingValid generalSettings true).outcome.isOk = true := by
    decide +kernel
  refine ⟨by decide, by decide +kernel, hok, ?_⟩
  rintro ⟨region, hcancelled⟩
  rw [hcancelled] at hok
  cases hok

end HybridCompile
