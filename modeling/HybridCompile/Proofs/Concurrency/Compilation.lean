import HybridCompile.Compile.Session
import HybridCompile.Proofs.Engine.Steps
import Mathlib.Logic.Hydra
import Mathlib.Tactic.Abel

/-!
# HybridCompile — builds side by side

The builds of a compilation run side by side, as many at one time as there are permits. Each region
has a task: it waits for a permit, begins its build, does the backend's work step by step, and ends,
which gives the permit back. A backend that is not thread-safe has the device to itself, so a build
begins only when no other runs. The compilation takes the ended builds in, one after another and in
any order, fires the token at the first failure, and answers once every task is taken in. The token,
the caller's signal and the calibrator are shared: each step of a build sees them as they are by
then.

* `Stage`, `Compilation` — where a task stands, and a compilation under way.
* `TaskStep`, `Compilation.Step` — what a task, and what a compilation may do next.
* `wellFounded_step`, `exists_step` — every interleaving ends, and it ends with an answer.
-/

namespace HybridCompile

/-- Where the build of a region stands. -/
inductive Stage where
  /-- It has no permit yet. -/
  | waiting
  /-- It has a permit, and is about to begin. -/
  | admitted
  /-- The backend is at work on a network; what is left to do, and the state it left. -/
  | running (n : Network) (w : Work) (t : BuildState)
  /-- It has ended, and the permit is given back. -/
  | ended (result : BuildResult)
  /-- Its result is taken in. -/
  | joined

namespace Stage

def holdsPermit : Stage → Bool
  | admitted => true
  | running .. => true
  | _ => false

def isRunning : Stage → Bool
  | running .. => true
  | _ => false

end Stage

/-- A compilation whose builds run side by side. -/
structure Compilation where
  tasks : List (Region × Stage)
  /-- What was taken in so far, and the signal and the calibrator as they are now. -/
  progress : Progress
  answer? : Option (Except CompileError Executable)

/-- The result of a build whose work has ended. -/
def resultOf (backend : Backend) (n : Network) (s : Settings) (t : BuildState) (e : Ending) :
    BuildResult where
  outcome := outcomeOf backend n s.ownArena t.context.close t.context.clock e
  arena := t.context.close
  signal := t.context.signal
  calibrator := if s.int8Enabled then t.calibrator else s.calibrator
  journal := t.journal
  started := true

/-- The build of a network is the run of its work, and then `resultOf` of the state in which it
ends. Step by step the same result is reached, which ties `TaskStep` to `buildNetwork`. -/
theorem buildNetwork_eq (backend : Backend) (n : Network) (s : Settings) (budget : BuildBudget)
    (signal : Bool) :
    buildNetwork backend n s budget s.ownArena signal =
      let start : BuildState := ⟨.new n.region s.ownArena budget signal, s.usedCalibrator, []⟩
      resultOf backend n s ((backend.work n (.ofSettings s)).run start).1
        ((backend.work n (.ofSettings s)).run start).2 :=
  rfl

namespace Session

variable (session : Session) (g : ValidGraph) (s : Settings)

/-- The state in which the work on a network begins. -/
def openState (n : Network) (p : Progress) : BuildState :=
  ⟨.new n.region s.ownArena (session.budget p.error?.isSome) p.signal,
    { s with calibrator := p.calibrator }.usedCalibrator, []⟩

/-- Begin the build of a region: lower it, look at the budget, and put the backend to work. -/
def enter (r : Region) (p : Progress) : Stage :=
  let stopped (e : BuildError) : Stage :=
    .ended ⟨.error e, s.ownArena, p.signal, p.calibrator, [], false⟩
  match lower g r s with
  | .error e => stopped (.failed (.lower e))
  | .ok n =>
    match (session.budget p.error?.isSome).check p.signal 0 with
    | some cause => stopped (.cancelled r.index cause)
    | none => .running n (session.backend.work n (.ofSettings s)) (session.openState s n p)

theorem enter_of_lower {g : ValidGraph} {s : Settings} {r : Region} {n : Network}
    (hn : lower g r s = .ok n) (session : Session) (p : Progress) :
    session.enter g s r p =
      match (session.budget p.error?.isSome).check p.signal 0 with
      | some cause =>
        .ended ⟨.error (.cancelled r.index cause), s.ownArena, p.signal, p.calibrator, [], false⟩
      | none => .running n (session.backend.work n (.ofSettings s)) (session.openState s n p) := by
  unfold enter
  cases (session.budget p.error?.isSome).check p.signal 0 <;> simp only [hn]

/-- The state in which work goes on: the one it left, with what is shared as it is now. -/
def resume (p : Progress) (t : BuildState) : BuildState :=
  { t with
    context := { t.context with budget := session.budget p.error?.isSome, signal := p.signal }
    calibrator := { s with calibrator := p.calibrator }.usedCalibrator }

end Session

/-- The progress after a step of a build, with what is shared as the build leaves it. -/
def Progress.leave (p : Progress) (s : Settings) (t : BuildState) : Progress :=
  { p with
    signal := t.context.signal
    calibrator := if s.int8Enabled then t.calibrator else p.calibrator }

/-- Take the result of a build in that ended some time ago. -/
def Progress.join (p : Progress) (r : Region) (result : BuildResult) : Progress :=
  p.add r.index { result with signal := p.signal, calibrator := p.calibrator }

/-- What the task of a region may do next: its stage, and the progress of the compilation, before
and after. -/
inductive TaskStep (session : Session) (g : ValidGraph) (s : Settings) (r : Region) :
    Stage → Progress → Stage → Progress → Prop
  | begin (p : Progress) : TaskStep session g s r .admitted p (session.enter g s r p) p
  | work {n : Network} {w w' : Work} {t t' : BuildState} {p : Progress}
      (h : w.step (session.resume s p t) = some (w', t')) :
      TaskStep session g s r (.running n w t) p (.running n w' t') (p.leave s t')
  | finish {n : Network} {w : Work} {t : BuildState} {e : Ending} (p : Progress)
      (h : w.ending? = some e) :
      TaskStep session g s r (.running n w t) p (.ended (resultOf session.backend n s t e)) p
  | join (result : BuildResult) (p : Progress) :
      TaskStep session g s r (.ended result) p .joined (p.join r result)

namespace Compilation

/-- Every region for the accelerator waits for its permit. -/
def start (plan : Plan) (s : Settings) (signal : Bool) : Compilation :=
  ⟨plan.acceleratorRegions.map fun r => (r, .waiting), .start s signal, none⟩

def permitsTaken (tasks : List (Region × Stage)) : Nat :=
  tasks.countP fun task => task.2.holdsPermit

/-- A build may begin beside these tasks. -/
def DeviceFree (session : Session) (others : List (Region × Stage)) : Prop :=
  session.backend.threadSafe = true ∨ ∀ task ∈ others, task.2.isRunning = false

/-- What a compilation with `permits` permits may do next. -/
inductive Step (session : Session) (g : ValidGraph) (s : Settings) (plan : Plan) (permits : Nat) :
    Compilation → Compilation → Prop
  | grant {before after : List (Region × Stage)} {r : Region} {p : Progress}
      (h : permitsTaken (before ++ (r, .waiting) :: after) < permits) :
      Step session g s plan permits ⟨before ++ (r, .waiting) :: after, p, none⟩
        ⟨before ++ (r, .admitted) :: after, p, none⟩
  | task {before after : List (Region × Stage)} {r : Region} {stage stage' : Stage}
      {p p' : Progress} (h : TaskStep session g s r stage p stage' p')
      (hdevice : stage = .admitted → DeviceFree session (before ++ after)) :
      Step session g s plan permits ⟨before ++ (r, stage) :: after, p, none⟩
        ⟨before ++ (r, stage') :: after, p', none⟩
  | answer {tasks : List (Region × Stage)} {p : Progress}
      (h : ∀ task ∈ tasks, task.2 = .joined) :
      Step session g s plan permits ⟨tasks, p, none⟩
        ⟨tasks, p, some (Session.assemble g plan p)⟩

def Reaches (session : Session) (g : ValidGraph) (s : Settings) (plan : Plan) (permits : Nat) :
    Compilation → Compilation → Prop :=
  Relation.ReflTransGen (Step session g s plan permits)

end Compilation

/-! ## Every interleaving ends -/

/-- Doing work step by step comes to an end, whatever the answers: what is left to do is a part of
the work. Induction on the work. -/
theorem Work.wellFounded_step :
    WellFounded fun w' w : Work => ∃ t t', w.step t = some (w', t') := by
  refine ⟨fun w => ?_⟩
  induction w with
  | done | fail | crash =>
    refine Acc.intro _ ?_
    rintro w' ⟨t, t', h⟩
    cases h
  | checkpoint next ih | readCache next ih =>
    refine Acc.intro _ ?_
    rintro w' ⟨t, t', h⟩
    cases h
    exact ih _
  | reserve _ _ _ next ih =>
    refine Acc.intro _ ?_
    rintro w' ⟨t, t', h⟩
    cases h
    -- nothing is left to do for a backend that broke down
    refine Reply.resume_of_forall (P := Acc _) ih (Acc.intro _ ?_) _
    rintro w' ⟨t, t', h⟩
    cases h
  | fire next ih | pause _ next ih | observe next ih | writeCache _ next ih =>
    refine Acc.intro _ ?_
    rintro w' ⟨t, t', h⟩
    cases h
    exact ih
  | drainBatches next ih =>
    refine Acc.intro _ ?_
    rintro w' ⟨t, t', h⟩
    cases hfound : t.calibrator with
    | some c | none =>
      rw [Work.step, hfound] at h
      cases h
      exact ih _

section

variable {session : Session} {g : ValidGraph} {s : Settings} {plan : Plan} {permits : Nat}

/-- One stage can come right after another. -/
def Stage.Follows (session : Session) (g : ValidGraph) (s : Settings) (stage' stage : Stage) :
    Prop :=
  (stage = .waiting ∧ stage' = .admitted) ∨ ∃ r p p', TaskStep session g s r stage p stage' p'

theorem acc_joined : Acc (Stage.Follows session g s) .joined := by
  refine Acc.intro _ ?_
  rintro stage' (⟨h, _⟩ | ⟨r, p, p', h⟩) <;> cases h

theorem acc_ended (result : BuildResult) : Acc (Stage.Follows session g s) (.ended result) := by
  refine Acc.intro _ ?_
  rintro stage' (⟨h, _⟩ | ⟨r, p, p', h⟩) <;> cases h
  exact acc_joined

-- The induction is on the work that is left, for every state: others may change what is shared.
/-- A task that builds comes to an end. Induction along `Work.wellFounded_step`, over all states. -/
theorem acc_running (n : Network) (w : Work) (t : BuildState) :
    Acc (Stage.Follows session g s) (.running n w t) := by
  induction w using Work.wellFounded_step.induction generalizing t with
  | _ w ih =>
    refine Acc.intro _ ?_
    rintro stage' (⟨h, _⟩ | ⟨r, p, p', h⟩)
    · cases h
    · cases h with
      | work hstep => exact ih _ ⟨_, _, hstep⟩ _
      | finish => exact acc_ended _

/-- A task that is about to build comes to an end: it is stopped at once, or builds. -/
theorem acc_admitted : Acc (Stage.Follows session g s) .admitted := by
  refine Acc.intro _ ?_
  rintro stage' (⟨h, _⟩ | ⟨r, p, p', h⟩)
  · cases h
  · cases h
    unfold Session.enter
    dsimp only
    split
    · exact acc_ended _
    · split
      · exact acc_ended _
      · exact acc_running _ _ _

/-- No task goes on for ever; the cases are the stages, from the last one back. -/
theorem wellFounded_follows (session : Session) (g : ValidGraph) (s : Settings) :
    WellFounded (Stage.Follows session g s) := by
  refine ⟨fun stage => ?_⟩
  cases stage with
  | waiting =>
    refine Acc.intro _ ?_
    rintro stage' (⟨_, rfl⟩ | ⟨r, p, p', h⟩)
    · exact acc_admitted
    · cases h
  | admitted => exact acc_admitted
  | running n w t => exact acc_running n w t
  | ended result => exact acc_ended result
  | joined => exact acc_joined

namespace Compilation

def stages (c : Compilation) : Multiset Stage := (c.tasks.map Prod.snd : List Stage)

/-- A step is the compilation's answer, or moves the stage of one task on. As a step of the multiset
of stages, the one is cut off and the one after it grows in its place. -/
theorem Step.answer_or_cutExpand {c c' : Compilation} (h : Step session g s plan permits c c') :
    (c.answer? = none ∧ c'.answer?.isSome = true) ∨
      Relation.CutExpand (Stage.Follows session g s) c'.stages c.stages := by
  have hmoves : ∀ {before after : List (Region × Stage)} {r : Region} {stage stage' : Stage}
      {p p' : Progress}, Stage.Follows session g s stage' stage →
      Relation.CutExpand (Stage.Follows session g s)
        (stages ⟨before ++ (r, stage') :: after, p', none⟩)
        (stages ⟨before ++ (r, stage) :: after, p, none⟩) := by
    intro before after r stage stage' p p' hfollows
    -- the stage of one task is cut off, and the one after it grows in its place
    refine ⟨{stage'}, stage, fun a ha => ?_, ?_⟩
    · rw [Multiset.mem_singleton.mp ha]
      exact hfollows
    · simp only [stages, List.map_append, List.map_cons, ← Multiset.coe_add,
        ← Multiset.cons_coe, ← Multiset.singleton_add]
      abel
  cases h with
  | grant => exact Or.inr (hmoves (Or.inl ⟨rfl, rfl⟩))
  | task h => exact Or.inr (hmoves (Or.inr ⟨_, _, _, h⟩))
  | answer => exact Or.inl ⟨rfl, rfl⟩

theorem acc_of_answer {c : Compilation} (h : c.answer?.isSome = true) :
    Acc (fun c' c => Step session g s plan permits c c') c := by
  refine Acc.intro _ fun c' hstep => ?_
  cases hstep <;> cases h

/-- No interleaving goes on for ever. The induction is on the multiset of stages, along
`Relation.CutExpand` of `Stage.Follows`, since any of the tasks may be the next to move. -/
theorem wellFounded_step : WellFounded fun c' c => Step session g s plan permits c c' := by
  have hirrefl : Std.Irrefl (Stage.Follows session g s) :=
    ⟨fun stage h => (wellFounded_follows session g s).asymmetric stage stage h h⟩
  refine ⟨fun c => ?_⟩
  -- The induction is on the multiset of stages, since any of the tasks may be the next to move.
  generalize hstages : c.stages = m
  induction m using (wellFounded_follows session g s).cutExpand.induction generalizing c with
  | _ m ih =>
    refine Acc.intro _ fun c' hstep => ?_
    rcases hstep.answer_or_cutExpand with ⟨_, hanswer⟩ | hless
    · exact acc_of_answer hanswer
    · exact ih c'.stages (hstages ▸ hless) c' rfl

end Compilation

/-! ## No interleaving is stuck -/

theorem Work.exists_step_or_ending? (w : Work) (t : BuildState) :
    (∃ w' t', w.step t = some (w', t')) ∨ ∃ e, w.ending? = some e := by
  cases w with
  | done | fail | crash => exact Or.inr ⟨_, rfl⟩
  | drainBatches next =>
    cases hfound : t.calibrator with
    | some c | none => exact Or.inl ⟨_, _, by rw [step, hfound]⟩
  | _ => exact Or.inl ⟨_, _, rfl⟩

/-- A task that has its permit, or has ended, can go on at any time. -/
theorem exists_taskStep (session : Session) (g : ValidGraph) (s : Settings) (r : Region)
    (p : Progress) {stage : Stage} (hwaiting : stage ≠ .waiting) (hjoined : stage ≠ .joined) :
    ∃ stage' p', TaskStep session g s r stage p stage' p' := by
  cases stage with
  | waiting => exact absurd rfl hwaiting
  | admitted => exact ⟨_, _, .begin p⟩
  | running n w t =>
    rcases w.exists_step_or_ending? (session.resume s p t) with ⟨w', t', h⟩ | ⟨e, h⟩
    · exact ⟨_, _, .work h⟩
    · exact ⟨_, _, .finish p h⟩
  | ended result => exact ⟨_, _, .join result p⟩
  | joined => exact absurd rfl hjoined

theorem permitsTaken_eq_zero {tasks : List (Region × Stage)}
    (h : ∀ task ∈ tasks, task.2 = .waiting ∨ task.2 = .joined) :
    Compilation.permitsTaken tasks = 0 := by
  refine List.countP_eq_zero.mpr fun task htask => ?_
  rcases h task htask with hstage | hstage <;> rw [hstage] <;> decide

/-- As long as there is no answer there is a step. A task that builds or has ended goes on; if there
is none the device is free and a task with a permit begins; if there is none either, a permit is
left for a task that waits; and if all are taken in there is the answer. -/
theorem Compilation.exists_step {c : Compilation} (hpermits : 0 < permits)
    (hanswer : c.answer? = none) : ∃ c', Compilation.Step session g s plan permits c c' := by
  obtain ⟨tasks, p, answer?⟩ := c
  subst hanswer
  -- a build that runs can go on, and one that has ended can be taken in
  by_cases hgoes : ∃ task ∈ tasks, task.2 ≠ .waiting ∧ task.2 ≠ .admitted ∧ task.2 ≠ .joined
  · obtain ⟨⟨r, stage⟩, hmem, hwaiting, hadmitted, hjoined⟩ := hgoes
    obtain ⟨before, after, rfl⟩ := List.append_of_mem hmem
    obtain ⟨stage', p', h⟩ := exists_taskStep session g s r p hwaiting hjoined
    exact ⟨_, .task h fun hstage => absurd hstage hadmitted⟩
  have hidle : ∀ task ∈ tasks, task.2 = .waiting ∨ task.2 = .admitted ∨ task.2 = .joined := by
    intro task htask
    by_contra hnone
    rw [not_or, not_or] at hnone
    exact hgoes ⟨task, htask, hnone⟩
  -- no build runs, so the device is free for a task with a permit
  by_cases hbegins : ∃ r, (r, Stage.admitted) ∈ tasks
  · obtain ⟨r, hmem⟩ := hbegins
    obtain ⟨before, after, rfl⟩ := List.append_of_mem hmem
    refine ⟨_, .task (.begin p) fun _ => Or.inr fun task htask => ?_⟩
    have hothers : task ∈ before ++ (r, Stage.admitted) :: after := by
      rcases List.mem_append.mp htask with hbefore | hafter
      · exact List.mem_append_left _ hbefore
      · exact List.mem_append_right _ (List.mem_cons_of_mem _ hafter)
    rcases hidle task hothers with hstage | hstage | hstage <;> rw [hstage] <;> rfl
  have hjoined : ∀ task ∈ tasks, task.2 = .waiting ∨ task.2 = .joined := by
    intro task htask
    rcases hidle task htask with hstage | hstage | hstage
    · exact Or.inl hstage
    · exact absurd ⟨task.1, by rw [← hstage]; exact htask⟩ hbegins
    · exact Or.inr hstage
  -- no task has a permit, so there is one for a task that waits
  by_cases hwaits : ∃ r, (r, Stage.waiting) ∈ tasks
  · obtain ⟨r, hmem⟩ := hwaits
    have hfree := permitsTaken_eq_zero hjoined
    obtain ⟨before, after, rfl⟩ := List.append_of_mem hmem
    exact ⟨_, .grant (by rw [hfree]; exact hpermits)⟩
  · refine ⟨_, .answer fun task htask => ?_⟩
    rcases hjoined task htask with hstage | hstage
    · exact absurd ⟨task.1, by rw [← hstage]; exact htask⟩ hwaits
    · exact hstage

end

end HybridCompile
