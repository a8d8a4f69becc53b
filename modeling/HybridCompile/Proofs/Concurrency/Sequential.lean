import HybridCompile.Proofs.Calibration.Calibrating
import HybridCompile.Proofs.Compile.Assembly
import HybridCompile.Proofs.Concurrency.Compilation
import HybridCompile.Proofs.Engine.Settled

/-!
# HybridCompile — builds one after another, side by side

A compilation that builds its engines one after another, in whatever order, is one of the
interleavings of builds side by side: each task goes all the way before the next one is let in.

* `TaskSteps` — a task that goes on alone; `taskSteps_buildNext` — all the way.
* `reaches_foldl`, `reaches_compileInOrder` — one region after another, and the whole.
-/

namespace HybridCompile

/-! ## One task alone -/

/-- Any number of steps of one task, while no other takes any. -/
def TaskSteps (session : Session) (g : ValidGraph) (s : Settings) (r : Region) :
    Stage × Progress → Stage × Progress → Prop :=
  Relation.ReflTransGen fun x y => TaskStep session g s r x.1 x.2 y.1 y.2

section

variable {session : Session} {g : ValidGraph} {s : Settings} {r : Region} {n : Network}
variable {p : Progress} {t t' : BuildState} {w w' : Work}

theorem buildNext_calibrator_name
    (h : p.calibrator.map Calibrator.name = s.calibrator.map Calibrator.name) :
    (session.buildNext g s p r).calibrator.map Calibrator.name =
      s.calibrator.map Calibrator.name := by
  unfold Session.buildNext
  rw [(add_shared _ _ _).2, build_calibrator_name]
  exact h

theorem leave_of_resume (h : session.resume s p t = t) : p.leave s t = p := by
  have hsignal : p.signal = t.context.signal := congrArg (fun t => t.context.signal) h
  have hcalibrator : (if s.int8Enabled then p.calibrator else none) = t.calibrator :=
    congrArg BuildState.calibrator h
  unfold Progress.leave
  rw [← hsignal, ← hcalibrator]
  cases s.int8Enabled <;> rfl

theorem leave_leave : (p.leave s t).leave s t' = p.leave s t' := by
  unfold Progress.leave
  cases s.int8Enabled <;> rfl

/-- What no other task has touched since is found as it was left. With int8 the calibrator is the
one that the step left; without it the build has none, and its work makes none. -/
theorem resume_leave (h : session.resume s p t = t) (hstep : w.step t = some (w', t')) :
    session.resume s (p.leave s t') t' = t' := by
  have hbudget : session.budget p.error?.isSome = t'.context.budget :=
    (congrArg (fun t => t.context.budget) h).trans (Work.step_budget hstep).symm
  have hused : (if s.int8Enabled then p.calibrator else none) = t.calibrator :=
    congrArg BuildState.calibrator h
  have hcalibrator :
      (if s.int8Enabled then (if s.int8Enabled then t'.calibrator else p.calibrator) else none) =
        t'.calibrator := by
    split
    · rfl
    · next hint8 =>
      -- without int8 the build has no calibrator, and its work makes none
      have hname := step_calibrator_name hstep
      rw [← hused, if_neg hint8, Option.map_none, Option.map_eq_none_iff] at hname
      exact hname.symm
  show (⟨⟨t'.context.region, t'.context.arena, session.budget p.error?.isSome, t'.context.held,
    t'.context.checkpoints, t'.context.signal, t'.context.clock⟩,
    if s.int8Enabled then (if s.int8Enabled then t'.calibrator else p.calibrator) else none,
    t'.journal⟩ : BuildState) = t'
  rw [hbudget, hcalibrator]

/-- Steps of work are steps of the task, as long as no other task takes any. Induction on the steps;
that the state is found as it was left is `resume_leave`. -/
theorem taskSteps_work {x y : Work × BuildState} (h : session.resume s p x.2 = x.2)
    (hsteps : Work.Steps x y) :
    TaskSteps session g s r (.running n x.1 x.2, p) (.running n y.1 y.2, p.leave s y.2) ∧
      session.resume s (p.leave s y.2) y.2 = y.2 := by
  induction hsteps with
  | refl =>
    rw [leave_of_resume h]
    exact ⟨.refl, h⟩
  | @tail y z _ hstep ih =>
    obtain ⟨hsteps, hresume⟩ := ih
    have hstep' : y.1.step (session.resume s (p.leave s y.2) y.2) = some (z.1, z.2) := by
      rw [hresume]
      exact hstep
    have hnext := TaskStep.work (g := g) (r := r) (n := n) hstep'
    rw [leave_leave] at hnext
    have hresume' := resume_leave hresume hstep
    rw [leave_leave] at hresume'
    exact ⟨hsteps.tail hnext, hresume'⟩

/-- To take a result in at once is to add it as the build left it. -/
theorem join_leave (backend : Backend) (e : Ending) :
    (p.leave s t).join r (resultOf backend n s t e) =
      p.add r.index (resultOf backend n { s with calibrator := p.calibrator } t e) :=
  rfl

theorem TaskSteps.concat {x : Stage × Progress} {stage stage' : Stage} {p p' : Progress}
    (h : TaskSteps session g s r x (stage, p)) (hstep : TaskStep session g s r stage p stage' p') :
    TaskSteps session g s r x (stage', p') :=
  Relation.ReflTransGen.tail h hstep

/-- A build that is stopped before the backend is asked ends at once, and its result is taken in. -/
theorem taskSteps_stopped {e : BuildError}
    (henter : session.enter g s r p =
      .ended ⟨.error e, s.ownArena, p.signal, p.calibrator, [], false⟩)
    (hbuild : build session.backend g r { s with calibrator := p.calibrator }
      (session.budget p.error?.isSome) p.signal =
        ⟨.error e, s.ownArena, p.signal, p.calibrator, [], false⟩) :
    TaskSteps session g s r (.admitted, p) (.joined, session.buildNext g s p r) := by
  have hbegin : TaskStep session g s r .admitted p (session.enter g s r p) p := .begin p
  rw [henter] at hbegin
  unfold Session.buildNext
  rw [hbuild]
  exact TaskSteps.concat (.single hbegin) (.join _ p)

/-- A build that begins is carried out step by step to its end, by `exists_steps_run`, and its
result is that of `buildNetwork`. -/
theorem taskSteps_running (hn : lower g r s = .ok n)
    (hcheck : (session.budget p.error?.isSome).check p.signal 0 = none)
    (hname : p.calibrator.map Calibrator.name = s.calibrator.map Calibrator.name) :
    TaskSteps session g s r (.admitted, p) (.joined, session.buildNext g s p r) := by
  let work := session.backend.work n (.ofSettings s)
  let start := session.openState s n p
  have hbegin : TaskStep session g s r .admitted p (.running n work start) p := by
    have hbegin : TaskStep session g s r .admitted p (session.enter g s r p) p := .begin p
    rwa [Session.enter_of_lower hn, hcheck] at hbegin
  have hresume : session.resume s p start = start := rfl
  obtain ⟨v, hsteps, hend⟩ := work.exists_steps_run start
  obtain ⟨hwork, -⟩ := taskSteps_work (g := g) (r := r) (n := n) hresume hsteps
  have hfinish : TaskStep session g s r (.running n v (work.run start).1)
      (p.leave s (work.run start).1)
      (.ended (resultOf session.backend n s (work.run start).1 (work.run start).2))
      (p.leave s (work.run start).1) := .finish _ hend
  have hrun : TaskSteps session g s r (.admitted, p)
      (.running n v (work.run start).1, p.leave s (work.run start).1) := .head hbegin hwork
  have hall := (hrun.concat hfinish).concat (.join _ _)
  rw [join_leave] at hall
  have hn' : lower g r { s with calibrator := p.calibrator } = .ok n := hn
  unfold Session.buildNext
  rw [build_of_lower hn', hcheck]
  dsimp only
  rw [buildNetwork_eq, ofSettings_eq_of_name hname]
  exact hall

/-- A task that has its permit goes all the way, and the progress is that after one more build. The
cases are those of `Session.enter`: a region that cannot be lowered, a build that is stopped before
it begins, and one that runs. -/
theorem taskSteps_buildNext
    (hname : p.calibrator.map Calibrator.name = s.calibrator.map Calibrator.name) :
    TaskSteps session g s r (.admitted, p) (.joined, session.buildNext g s p r) := by
  cases hlower : lower g r s with
  | error e =>
    have hlower' : lower g r { s with calibrator := p.calibrator } = .error e := hlower
    refine taskSteps_stopped (e := .failed (.lower e)) ?_ ?_
    · rw [Session.enter, hlower]
    · rw [build, buildIn, hlower']
      rfl
  | ok n =>
    cases hcheck : (session.budget p.error?.isSome).check p.signal 0 with
    | none => exact taskSteps_running hlower hcheck hname
    | some cause =>
      have hlower' : lower g r { s with calibrator := p.calibrator } = .ok n := hlower
      refine taskSteps_stopped (e := .cancelled r.index cause) ?_ ?_
      · rw [Session.enter_of_lower hlower, hcheck]
      · rw [build_of_lower hlower', hcheck]
        rfl

end

/-! ## All tasks, one after another -/

namespace Compilation

section

variable {session : Session} {g : ValidGraph} {s : Settings} {plan : Plan} {permits : Nat}
variable {before after : List (Region × Stage)} {r : Region} {p : Progress}

/-- Steps of one task are steps of the compilation, if the device is free for it. Induction on the
steps. -/
theorem reaches_of_taskSteps {x y : Stage × Progress} (h : TaskSteps session g s r x y)
    (hdevice : DeviceFree session (before ++ after)) :
    Reaches session g s plan permits ⟨before ++ (r, x.1) :: after, x.2, none⟩
      ⟨before ++ (r, y.1) :: after, y.2, none⟩ := by
  induction h with
  | refl => exact .refl
  | tail _ hstep ih => exact ih.tail (.task hstep fun _ => hdevice)

/-- While all others wait or are taken in, a task takes a permit and goes all the way, and what the
compilation has come to is that of `Session.buildNext`. -/
theorem reaches_buildNext (hpermits : 0 < permits)
    (hothers : ∀ task ∈ before ++ after, task.2 = .waiting ∨ task.2 = .joined)
    (hname : p.calibrator.map Calibrator.name = s.calibrator.map Calibrator.name) :
    Reaches session g s plan permits ⟨before ++ (r, .waiting) :: after, p, none⟩
      ⟨before ++ (r, .joined) :: after, session.buildNext g s p r, none⟩ := by
  have hidle : ∀ task ∈ before ++ (r, Stage.waiting) :: after,
      task.2 = .waiting ∨ task.2 = .joined := by
    rw [List.forall_mem_append] at hothers
    exact List.forall_mem_append.mpr
      ⟨hothers.1, List.forall_mem_cons.mpr ⟨Or.inl rfl, hothers.2⟩⟩
  have hfree := permitsTaken_eq_zero hidle
  have hdevice : DeviceFree session (before ++ after) := by
    refine Or.inr fun task htask => ?_
    rcases hothers task htask with h | h <;> rw [h] <;> rfl
  have hgrant : Step session g s plan permits ⟨before ++ (r, .waiting) :: after, p, none⟩
      ⟨before ++ (r, .admitted) :: after, p, none⟩ := .grant (by rw [hfree]; exact hpermits)
  exact .head hgrant (reaches_of_taskSteps (taskSteps_buildNext hname) hdevice)

end

/-- The tasks of regions of which some are taken in, and the others wait. -/
def tasksAfter (done regions : List Region) : List (Region × Stage) :=
  regions.map fun r => (r, if r ∈ done then .joined else .waiting)

section

variable {session : Session} {g : ValidGraph} {s : Settings} {plan : Plan} {permits : Nat}
variable {done regions : List Region} {r : Region} {p : Progress}

theorem tasksAfter_concat (h : r ∉ regions) :
    tasksAfter (done ++ [r]) regions = tasksAfter done regions := by
  refine List.map_congr_left fun r' hr' => ?_
  have hne : r' ≠ r := fun heq => h (heq ▸ hr')
  simp [hne]

theorem mem_tasksAfter {task : Region × Stage} (h : task ∈ tasksAfter done regions) :
    task.2 = .waiting ∨ task.2 = .joined := by
  obtain ⟨r, -, rfl⟩ := List.mem_map.mp h
  dsimp only
  split
  · exact Or.inr rfl
  · exact Or.inl rfl

/-- One region after another, from those that are done to the end. Induction on the regions that are
left; `tasksAfter` says where all tasks stand in between. -/
theorem reaches_foldl (hpermits : 0 < permits) (hnodup : regions.Nodup) {left : List Region}
    (hleft : ∀ r ∈ left, r ∈ regions) (hfresh : (done ++ left).Nodup)
    (hname : p.calibrator.map Calibrator.name = s.calibrator.map Calibrator.name) :
    Reaches session g s plan permits ⟨tasksAfter done regions, p, none⟩
      ⟨tasksAfter (done ++ left) regions, left.foldl (session.buildNext g s) p, none⟩ := by
  induction left generalizing done p with
  | nil =>
    rw [List.append_nil]
    exact .refl
  | cons r rest ih =>
    -- the task of `r` moves, while those before and after it stand still
    obtain ⟨before, after, rfl⟩ := List.append_of_mem (hleft r List.mem_cons_self)
    have hr : r ∉ done := fun hmem =>
      List.disjoint_of_nodup_append hfresh hmem List.mem_cons_self
    have hapart : r ∉ before ∧ r ∉ after := by
      rw [List.nodup_append] at hnodup
      exact ⟨fun hmem => hnodup.2.2 r hmem r List.mem_cons_self rfl,
        (List.nodup_cons.mp hnodup.2.1).1⟩
    have hwaits : tasksAfter done (before ++ r :: after) =
        tasksAfter done before ++ (r, .waiting) :: tasksAfter done after := by
      simp [tasksAfter, hr]
    have hjoined : tasksAfter (done ++ [r]) (before ++ r :: after) =
        tasksAfter done before ++ (r, .joined) :: tasksAfter done after := by
      rw [← tasksAfter_concat hapart.1, ← tasksAfter_concat hapart.2]
      simp [tasksAfter]
    have hothers : ∀ task ∈ tasksAfter done before ++ tasksAfter done after,
        task.2 = .waiting ∨ task.2 = .joined := fun task htask =>
      (List.mem_append.mp htask).elim mem_tasksAfter mem_tasksAfter
    have hnext : Reaches session g s plan permits
        ⟨tasksAfter done (before ++ r :: after), p, none⟩
        ⟨tasksAfter (done ++ [r]) (before ++ r :: after), session.buildNext g s p r, none⟩ := by
      rw [hwaits, hjoined]
      exact reaches_buildNext hpermits hothers hname
    have hfresh' : ((done ++ [r]) ++ rest).Nodup := by rwa [List.append_assoc]
    have hname' : (session.buildNext g s p r).calibrator.map Calibrator.name =
        s.calibrator.map Calibrator.name := buildNext_calibrator_name hname
    have hrest := ih (fun r' hr' => hleft r' (List.mem_cons_of_mem r hr')) hfresh' hname'
    rw [List.append_assoc] at hrest
    exact Relation.ReflTransGen.trans hnext hrest

end

/-- A compilation that builds its engines in some order is one of the interleavings, if there is a
semaphore for its builds. -/
theorem reaches_compileInOrder {session : Session} {g : ValidGraph} {s : Settings} {plan : Plan}
    {permits : Nat} (hpermits : 0 < permits) (hne : g.operators ≠ [])
    (hplan : session.plan g s = .ok plan) (hsemaphore : session.config.hasSemaphore = true)
    {order : List Region → List Region} (horder : ∀ rs, (order rs).Perm rs) (signal : Bool) :
    ∃ answer, (session.compileInOrder order g s signal).outcome = .ofExcept answer ∧
      Reaches session g s plan permits (.start plan s signal)
        ⟨plan.acceleratorRegions.map fun r => (r, .joined),
          (session.compileInOrder order g s signal).progress, some answer⟩ := by
  have hnodup := nodup_acceleratorRegions hne hplan
  have hmem : ∀ r, r ∈ order plan.acceleratorRegions ↔ r ∈ plan.acceleratorRegions := fun r =>
    (horder _).mem_iff
  have hstart : tasksAfter [] plan.acceleratorRegions =
      plan.acceleratorRegions.map fun r => (r, Stage.waiting) := by simp [tasksAfter]
  have hend : tasksAfter ([] ++ order plan.acceleratorRegions) plan.acceleratorRegions =
      plan.acceleratorRegions.map fun r => (r, Stage.joined) := by
    refine List.map_congr_left fun r hr => ?_
    rw [List.nil_append, if_pos ((hmem r).mpr hr)]
  have hfresh : ([] ++ order plan.acceleratorRegions).Nodup := by
    rw [List.nil_append]
    exact nodup_order hne hplan horder
  have hbuilds : Reaches session g s plan permits
      ⟨tasksAfter [] plan.acceleratorRegions, .start s signal, none⟩
      ⟨tasksAfter ([] ++ order plan.acceleratorRegions) plan.acceleratorRegions,
        session.buildEach g s signal (order plan.acceleratorRegions), none⟩ :=
    reaches_foldl hpermits hnodup (fun r hr => (hmem r).mp hr) hfresh rfl
  rw [hstart, hend] at hbuilds
  rw [compileInOrder_of_plan hplan hsemaphore]
  refine ⟨_, rfl, Relation.ReflTransGen.tail hbuilds (.answer fun task htask => ?_)⟩
  obtain ⟨r, -, rfl⟩ := List.mem_map.mp htask
  rfl

end Compilation

end HybridCompile
