import HybridCompile.Proofs.Concurrency.Compilation

/-!
# HybridCompile — what every interleaving keeps

An invariant of builds side by side says where each task may stand and what was taken in from those
that are over. It holds all the way if each step of one task keeps it, and disturbs no other task.

* `Invariant`, `Invariant.Inductive` — what is claimed, and what has to be shown of one task.
* `Compilation.Keeps`, `Reaches.keeps` — the whole compilation, step after step.
* `Keeps.answer` — what holds once there is an answer.
-/

namespace HybridCompile

/-- What is claimed of a compilation under way: of each task by itself, and of what was taken in.
Neither speaks of the other tasks, so that `Invariant.Inductive` can be shown of one task at a time.
-/
structure Invariant where
  /-- Where the task of a region may stand while the compilation has come this far. -/
  stage : Progress → Region → Stage → Prop
  /-- What was taken in from the regions that are done. -/
  taken : List Region → Progress → Prop

/-- Every step of one task keeps the invariant. -/
structure Invariant.Inductive (I : Invariant) (session : Session) (g : ValidGraph) (s : Settings)
    (plan : Plan) : Prop where
  grant : ∀ {r p}, I.stage p r .waiting → I.stage p r .admitted
  step : ∀ {r stage p stage' p' done}, r ∈ plan.acceleratorRegions →
    TaskStep session g s r stage p stage' p' → I.stage p r stage → I.taken done p →
    I.stage p' r stage'
  /-- The other tasks. -/
  frame : ∀ {r stage p stage' p' r' stage₀}, TaskStep session g s r stage p stage' p' →
    I.stage p r stage → I.stage p r' stage₀ → I.stage p' r' stage₀
  /-- Steps before a result is taken in. -/
  go : ∀ {r stage p stage' p' done}, TaskStep session g s r stage p stage' p' → stage' ≠ .joined →
    I.stage p r stage → I.taken done p → I.taken done p'
  join : ∀ {r p result done}, r ∈ plan.acceleratorRegions → I.stage p r (.ended result) →
    I.taken done p → I.taken (done ++ [r]) (p.join r result)

/-- The invariant holds of a compilation, and an answer is made of what was taken in. -/
structure Compilation.Keeps (I : Invariant) (g : ValidGraph) (plan : Plan) (c : Compilation) :
    Prop where
  regions_eq : c.tasks.map Prod.fst = plan.acceleratorRegions
  stages : ∀ task ∈ c.tasks, I.stage c.progress task.1 task.2
  taken : ∃ done, (∀ r, r ∈ done ↔ (r, Stage.joined) ∈ c.tasks) ∧ I.taken done c.progress
  answered : ∀ outcome, c.answer? = some outcome →
    (∀ task ∈ c.tasks, task.2 = .joined) ∧ outcome = Session.assemble g plan c.progress

section

variable {I : Invariant} {session : Session} {g : ValidGraph} {s : Settings} {plan : Plan}
variable {permits : Nat} {before after : List (Region × Stage)}
variable {r r' : Region} {stage stage' : Stage} {p p' : Progress}

theorem TaskStep.ne_joined (h : TaskStep session g s r stage p stage' p') : stage ≠ .joined := by
  cases h <;> exact fun heq => (by cases heq)

theorem enter_ne_joined (session : Session) (g : ValidGraph) (s : Settings) (r : Region)
    (p : Progress) : session.enter g s r p ≠ .joined := by
  cases hn : lower g r s with
  | error e =>
    rw [Session.enter, hn]
    exact fun heq => (by cases heq)
  | ok n =>
    rw [Session.enter_of_lower hn]
    split <;> exact fun heq => (by cases heq)

/-- A task that comes to be taken in gives its result. -/
theorem TaskStep.eq_join (h : TaskStep session g s r stage p stage' p') (hjoined : stage' = .joined) :
    ∃ result, stage = .ended result ∧ p' = p.join r result := by
  cases h with
  | begin => exact absurd hjoined (enter_ne_joined session g s r p)
  | work | finish => cases hjoined
  | join result => exact ⟨result, rfl, rfl⟩

theorem mem_joined_iff (hstage : stage ≠ .joined) :
    (r', Stage.joined) ∈ before ++ (r, stage) :: after ↔
      (r', Stage.joined) ∈ before ∨ (r', Stage.joined) ∈ after := by
  rw [List.mem_append, List.mem_cons, Prod.mk.injEq]
  exact or_congr_right ⟨fun h => h.resolve_left fun heq => hstage heq.2.symm, Or.inr⟩

theorem mem_joined_self_iff :
    (r', Stage.joined) ∈ before ++ (r, Stage.joined) :: after ↔
      ((r', Stage.joined) ∈ before ∨ (r', Stage.joined) ∈ after) ∨ r' = r := by
  rw [List.mem_append, List.mem_cons, Prod.mk.injEq, and_iff_left rfl, or_left_comm, or_comm]

namespace Compilation

/-- At the start every task waits, and nothing was taken in. -/
theorem keeps_start {signal : Bool} (hstage : ∀ r, I.stage (.start s signal) r .waiting)
    (htaken : I.taken [] (.start s signal)) : (start plan s signal).Keeps I g plan where
  regions_eq := by
    show (plan.acceleratorRegions.map fun r => (r, Stage.waiting)).map Prod.fst = _
    rw [List.map_map]
    exact List.map_id _
  stages task htask := by
    obtain ⟨r, -, rfl⟩ := List.mem_map.mp htask
    exact hstage r
  taken := ⟨[], fun r => by simp [start], htaken⟩
  answered outcome h := by cases h

/-- One task moves; what is claimed of the others still holds. The tasks before and after it are
carried over by `hframe`, and the one that moved brings its own `hstage`. -/
theorem Keeps.replace (hc : Keeps I g plan ⟨before ++ (r, stage) :: after, p, none⟩)
    (hstage : I.stage p' r stage') (hframe : ∀ r₀ stage₀, I.stage p r₀ stage₀ → I.stage p' r₀ stage₀)
    (htaken : ∃ done, (∀ r', r' ∈ done ↔ (r', Stage.joined) ∈ before ++ (r, stage') :: after) ∧
      I.taken done p') :
    Keeps I g plan ⟨before ++ (r, stage') :: after, p', none⟩ where
  regions_eq := by
    rw [← hc.regions_eq]
    simp
  stages := by
    have hall := hc.stages
    rw [List.forall_mem_append, List.forall_mem_cons] at hall
    obtain ⟨hbefore, -, hafter⟩ := hall
    exact List.forall_mem_append.mpr ⟨fun task htask => hframe _ _ (hbefore task htask),
      List.forall_mem_cons.mpr ⟨hstage, fun task htask => hframe _ _ (hafter task htask)⟩⟩
  taken := htaken
  answered _ h := by cases h

/-- Every step of the compilation keeps the invariant. The cases are the steps: a permit, a step of
one task, of which only the last adds to what was taken in, and the answer. -/
theorem Step.keeps {c c' : Compilation} (hI : I.Inductive session g s plan)
    (h : Step session g s plan permits c c') (hc : c.Keeps I g plan) : c'.Keeps I g plan := by
  obtain ⟨done, hdone, htaken⟩ := hc.taken
  cases h with
  | @grant before after r p =>
    have hwaits : I.stage p r .waiting := hc.stages (r, .waiting) (by simp)
    refine hc.replace (hI.grant hwaits) (fun _ _ h => h) ⟨done, fun r' => ?_, htaken⟩
    rw [hdone, mem_joined_iff (fun h => by cases h), mem_joined_iff (fun h => by cases h)]
  | @task before after r stage stage' p p' hstep =>
    have hr : r ∈ plan.acceleratorRegions := by
      rw [← hc.regions_eq]
      simp
    have hstage : I.stage p r stage := hc.stages (r, stage) (by simp)
    refine hc.replace (hI.step hr hstep hstage htaken) (fun _ _ h => hI.frame hstep hstage h) ?_
    -- only a task that is taken in adds to what is done
    rcases Classical.em (stage' = .joined) with hjoined | hgoes
    · obtain ⟨result, rfl, rfl⟩ := hstep.eq_join hjoined
      subst hjoined
      refine ⟨done ++ [r], fun r' => ?_, hI.join hr hstage htaken⟩
      rw [List.mem_append, List.mem_singleton, hdone, mem_joined_iff hstep.ne_joined,
        mem_joined_self_iff]
    · refine ⟨done, fun r' => ?_, hI.go hstep hgoes hstage htaken⟩
      rw [hdone, mem_joined_iff hstep.ne_joined, mem_joined_iff hgoes]
  | answer hall =>
    exact ⟨hc.regions_eq, hc.stages, hc.taken, fun outcome h => ⟨hall, (Option.some.inj h).symm⟩⟩

/-- Any number of steps keep the invariant. Induction on the steps. -/
theorem Reaches.keeps {c c' : Compilation} (hI : I.Inductive session g s plan)
    (h : Reaches session g s plan permits c c') (hc : c.Keeps I g plan) : c'.Keeps I g plan := by
  induction h with
  | refl => exact hc
  | tail _ hstep ih => exact hstep.keeps hI ih

/-- An answer is made of what was taken in from all regions. -/
theorem Keeps.answer {c : Compilation} (hc : c.Keeps I g plan)
    {outcome : Except CompileError Executable} (h : c.answer? = some outcome) :
    c.tasks = plan.acceleratorRegions.map (fun r => (r, .joined)) ∧
      outcome = Session.assemble g plan c.progress ∧
      ∃ done, (∀ r, r ∈ plan.acceleratorRegions ↔ r ∈ done) ∧ I.taken done c.progress := by
  obtain ⟨hjoined, houtcome⟩ := hc.answered outcome h
  have htasks : c.tasks = plan.acceleratorRegions.map fun r => (r, .joined) := by
    rw [← hc.regions_eq, List.map_map]
    refine (List.map_id _).symm.trans (List.map_congr_left fun task htask => ?_)
    exact Prod.ext rfl (hjoined task htask)
  obtain ⟨done, hdone, htaken⟩ := hc.taken
  refine ⟨htasks, houtcome, done, fun r => ?_, htaken⟩
  rw [hdone, htasks]
  simp

end Compilation

end

end HybridCompile
