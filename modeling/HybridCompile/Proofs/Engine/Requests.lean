import HybridCompile.Proofs.Engine.Restoration
import HybridCompile.Proofs.Memory.Counters

/-!
# HybridCompile — a build as a stretch of a history

Many clients may reserve in one arena, and a build is one of them. What its backend asks for, in
order, and what is given back once it is over, are steps of a ledger. So all that holds of the
histories of a ledger holds of builds, whatever was done in the arena before.

* `Work.requests`, `buildSteps` — the steps.
* `BuildContext.Carries` — the ledger holds what it held before and what the context keeps.
* `run_buildSteps`, `exists_prefix_buildSteps` — the steps pass through the arenas that the build
  passes through, and end in the one that it leaves.
-/

namespace HybridCompile

/-- What asking for memory comes to in a ledger, where a number is the next to be given out. What is
granted and not to be kept is given back at once. -/
def requestSteps (number : Nat) (size : UInt64) (label : String) (keep : Bool) :
    Reply → List Ledger.Step
  | .granted => .reserve size label :: if keep then [] else [.release number]
  | .refused _ => [.reserve size label]
  | .crashed => [.reserve size label]

/-- What work that begins in a state asks of a ledger. -/
def Work.requests : Work → BuildState → Ledger → List Ledger.Step
  | .done _, _, _ => []
  | .fail _, _, _ => []
  | .crash, _, _ => []
  | .checkpoint next, s, l =>
    let r := s.context.checkpoint
    requests (next r.2) { s with context := r.1 } l
  | .reserve size label keep next, s, l =>
    let steps := requestSteps l.slots.length size label keep (s.context.reserve size label keep).2
    steps ++
      match s.context.reserve size label keep with
      | (context, .granted) => requests (next none) { s with context } (l.run steps)
      | (context, .refused e) => requests (next (some e)) { s with context } (l.run steps)
      | (_, .crashed) => []
  | .fire next, s, l => requests next { s with context := s.context.fire } l
  | .pause ms next, s, l => requests next { s with context := s.context.pause ms } l
  | .observe next, s, l => requests next { s with journal := s.journal ++ [s.context.snapshot] } l
  | .readCache next, s, l => requests (next (s.calibrator.bind Calibrator.readCache)) s l
  | .drainBatches next, s, l =>
    match s.calibrator with
    | some c => requests (next c.drain.1) { s with calibrator := some c.drain.2 } l
    | none => requests (next []) s l
  | .writeCache content next, s, l =>
    requests next { s with calibrator := s.calibrator.map (·.writeCache content) } l

/-- What is asked for after a request is what the work asks for that is left to do. -/
theorem Work.requests_reserve (size : UInt64) (label : String) (keep : Bool)
    (next : Option MemoryError → Work) (s : BuildState) (l : Ledger) :
    (Work.reserve size label keep next).requests s l =
      let r := s.context.reserve size label keep
      let steps := requestSteps l.slots.length size label keep r.2
      steps ++ (r.2.resume next).requests { s with context := r.1 } (l.run steps) := by
  rw [requests]
  rcases s.context.reserve size label keep with ⟨context, _ | e | _⟩ <;> rfl

/-- Give back what was granted between two states of a ledger, as far as it is still held. -/
def Ledger.giveBackSteps (before l : Ledger) : List Ledger.Step :=
  releaseSteps (List.range' before.slots.length (l.slots.length - before.slots.length))

/-- What a build does in a ledger. -/
def buildSteps (backend : Backend) (g : ValidGraph) (r : Region) (s : Settings)
    (budget : BuildBudget) (before : Ledger) (signal : Bool) : List Ledger.Step :=
  match lower g r s, budget.check signal 0 with
  | .ok n, none =>
    let requests := (backend.work n (.ofSettings s)).requests
      ⟨.new n.region before.arena budget signal, s.usedCalibrator, []⟩ before
    requests ++ before.giveBackSteps (before.run requests)
  | _, _ => []

/-! ## What the ledger holds -/

namespace BuildContext

/-- The ledger has the context's arena, and beside what it had before it holds what the context
keeps. -/
structure Carries (before l : Ledger) (c : BuildContext) : Prop where
  arena_eq : l.arena = c.arena
  slots_eq : ∃ given, l.slots = before.slots ++ given ∧ given.filterMap id = c.held

variable {before l : Ledger} {c : BuildContext}

theorem carries_new (region : Nat) (l : Ledger) (budget : BuildBudget) (signal : Bool) :
    Carries l l (new region l.arena budget signal) :=
  ⟨rfl, [], (List.append_nil _).symm, rfl⟩

/-- A request keeps the ledger in step with the context. The cases are the answers of the arena,
which are the ledger's own; what is not kept leaves an empty slot behind. -/
theorem Carries.reserve (h : c.Carries before l) (size : UInt64) (label : String) (keep : Bool) :
    let r := c.reserve size label keep
    r.1.Carries before (l.run (requestSteps l.slots.length size label keep r.2)) := by
  obtain ⟨arena, slots⟩ := l
  obtain ⟨rfl, given, rfl, hheld⟩ := h
  -- the arena decides, and the ledger follows it
  have hrun : ∀ steps, Ledger.run ⟨c.arena, before.slots ++ given⟩ (.reserve size label :: steps) =
      (Ledger.reserve ⟨c.arena, before.slots ++ given⟩ size label).1.run steps := fun steps =>
    congrArg (Ledger.run · steps) (Ledger.step_reserve _ size label)
  unfold BuildContext.reserve
  rcases hr : c.arena.reserve size label with ⟨arena, _ | e | _⟩
  · cases keep with
    | true =>
      simp only [if_true, requestSteps, hrun, Ledger.reserve, hr]
      show Carries before ⟨arena, before.slots ++ given ++ [some ⟨label, size⟩]⟩ _
      refine ⟨rfl, given ++ [some ⟨label, size⟩], List.append_assoc before.slots given _, ?_⟩
      rw [List.filterMap_append, hheld]
      rfl
    | false =>
      -- it comes back under the number that it has just got, and leaves an empty slot
      simp only [Bool.false_eq_true, if_false, requestSteps, hrun, Ledger.reserve, hr]
      show Carries before
        (Ledger.release ⟨arena, before.slots ++ given ++ some ⟨label, size⟩ :: []⟩ _) _
      rw [Ledger.release_held]
      refine ⟨rfl, given ++ [none], List.append_assoc before.slots given _, ?_⟩
      rw [List.filterMap_append, hheld]
      exact List.append_nil _
  -- nothing is granted, so nothing is kept
  · simp only [requestSteps, hrun, Ledger.reserve, hr]
    exact ⟨rfl, given, rfl, hheld⟩
  · simp only [requestSteps, hrun, Ledger.reserve, hr]
    exact ⟨rfl, given, rfl, hheld⟩

/-- When the context is closed, what is given back in the ledger is what the context kept. -/
theorem Carries.close (h : c.Carries before l) :
    (l.run (before.giveBackSteps l)).arena = c.close := by
  obtain ⟨arena, slots⟩ := l
  obtain ⟨rfl, given, rfl, hheld⟩ := h
  rw [Ledger.giveBackSteps, List.length_append, Nat.add_sub_cancel_left,
    Ledger.run_releaseSteps_range', hheld]
  rfl

end BuildContext

/-! ## The steps and the work -/

section

variable {w w' : Work} {s s' : BuildState} {before l : Ledger}

/-- One step of work is a part of the requests, and the rest are those of what is left to do. Only
`reserve` contributes one, and the ledger carries the state on. -/
theorem Work.requests_of_step (h : s.context.Carries before l)
    (hstep : w.step s = some (w', s')) :
    ∃ p, w.requests s l = p ++ w'.requests s' (l.run p) ∧
      s'.context.Carries before (l.run p) := by
  cases w with
  | done | fail | crash => cases hstep
  | reserve size label keep next =>
    cases hstep
    exact ⟨_, requests_reserve size label keep next s l, h.reserve size label keep⟩
  | drainBatches next =>
    cases hfound : s.calibrator with
    | some c | none =>
      rw [step, hfound] at hstep
      cases hstep
      refine ⟨[], ?_, h⟩
      rw [requests, hfound]
      rfl
  | _ =>
    cases hstep
    exact ⟨[], rfl, h.arena_eq, h.slots_eq⟩

/-- Any number of steps are a part of the requests. Induction on the steps, each by
`Work.requests_of_step`. -/
theorem Work.requests_of_steps {x y : Work × BuildState} (h : x.2.context.Carries before l)
    (hsteps : Steps x y) :
    ∃ p, x.1.requests x.2 l = p ++ y.1.requests y.2 (l.run p) ∧
      y.2.context.Carries before (l.run p) := by
  induction hsteps with
  | refl => exact ⟨[], rfl, h⟩
  | tail _ hstep ih =>
    obtain ⟨p, hp, hcarries⟩ := ih
    obtain ⟨p', hp', hcarries'⟩ := requests_of_step hcarries hstep
    rw [← Ledger.run_append] at hp' hcarries'
    exact ⟨p ++ p', by rw [hp, hp', List.append_assoc], hcarries'⟩

theorem Work.requests_of_ending? {e : Ending} (h : w.ending? = some e) :
    w.requests s l = [] := by
  cases w with
  | done | fail | crash => rfl
  | _ => cases h

/-- After all requests the ledger holds what the context keeps when the work is over. -/
theorem Work.carries_run_requests (w : Work) (h : s.context.Carries before l) :
    (w.run s).1.context.Carries before (l.run (w.requests s l)) := by
  obtain ⟨v, hsteps, hending⟩ := exists_steps_run w s
  obtain ⟨p, hp, hcarries⟩ := requests_of_steps h hsteps
  rw [hp, requests_of_ending? hending, List.append_nil]
  exact hcarries

end

section

variable {backend : Backend} {g : ValidGraph} {r : Region} {s : Settings} {n : Network}
variable {budget : BuildBudget} {before : Ledger} {signal : Bool}

/-- The steps of a build that begins: the requests of its work, and then what is given back of them.
-/
theorem buildSteps_of_lower (hn : lower g r s = .ok n) (hcheck : budget.check signal 0 = none) :
    buildSteps backend g r s budget before signal =
      let requests := (backend.work n (.ofSettings s)).requests
        ⟨.new n.region before.arena budget signal, s.usedCalibrator, []⟩ before
      requests ++ before.giveBackSteps (before.run requests) := by
  rw [buildSteps, hn, hcheck]

/-- The steps of a build leave the arena as the build does. The work is carried by
`Work.carries_run_requests`, and giving back what is held closes it. -/
theorem run_buildSteps (backend : Backend) (g : ValidGraph) (r : Region) (s : Settings)
    (budget : BuildBudget) (before : Ledger) (signal : Bool) :
    (before.run (buildSteps backend g r s budget before signal)).arena =
      (buildIn backend g r s budget before.arena signal).arena := by
  cases hn : lower g r s with
  | error e => rw [buildSteps, buildIn, hn]; rfl
  | ok n =>
    rw [buildIn_of_lower hn]
    cases hcheck : budget.check signal 0 with
    | some cause =>
      rw [buildSteps, hn, hcheck]
      rfl
    | none =>
      rw [buildSteps_of_lower hn hcheck, Ledger.run_append]
      exact (Work.carries_run_requests _
        (BuildContext.carries_new n.region before budget signal)).close

/-- At every moment of a build its arena is the ledger's after some of the steps. -/
theorem exists_prefix_buildSteps {t : BuildState}
    (h : BuildPasses backend g r s budget before.arena signal t) :
    ∃ p, p <+: buildSteps backend g r s budget before signal ∧
      (before.run p).arena = t.context.arena := by
  obtain ⟨n, hn, hcheck, w, hsteps⟩ := h
  obtain ⟨p, hp, hcarries⟩ :=
    Work.requests_of_steps (BuildContext.carries_new n.region before budget signal) hsteps
  refine ⟨p, ?_, hcarries.arena_eq⟩
  rw [buildSteps_of_lower hn hcheck]
  dsimp only
  rw [hp, List.append_assoc]
  exact List.prefix_append _ _

end

end HybridCompile
