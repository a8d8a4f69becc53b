import HybridCompile.Proofs.Compile.Alone
import HybridCompile.Proofs.Engine.Steps

/-!
# HybridCompile — work that is settled

The calibrator is shared by all builds of a compilation, so what it answers to one build may hang on
how far the others are. Work is settled when it does not matter: left alone, the work comes to the
same end whatever the calibrator answers, up to the bytes of the engine. A backend with settled work
gives each region an outcome of its own, which no other build can change.

* `Ending.Alike`, `Work.Settles` — the same end; work that comes to it in any case.
* `Settles.step`, `Settles.alike` — a step keeps the end, and the end is reached.
* `failure?_buildAlone` — the outcome of a region's build alone.
* `settled_reference` — the work of the reference backend is settled.
-/

namespace HybridCompile

/-- Two ends that differ at most in the bytes of an engine. -/
def Ending.Alike : Ending → Ending → Prop
  | .engine _, .engine _ => True
  | e, e' => e = e'

/-- Reserve memory, to be kept or to be given back at once. -/
def Arena.lend (a : Arena) (size : UInt64) (label : String) (keep : Bool) : Arena × Reply :=
  match a.reserve size label with
  | (a, .granted) => (if keep then a else a.release size, .granted)
  | answered => answered

/-- What a context does with a request is what `Arena.lend` does, as far as the arena and the answer
go. -/
theorem reserve_lend (c : BuildContext) (size : UInt64) (label : String) (keep : Bool) :
    (c.reserve size label keep).1.arena = (c.arena.lend size label keep).1 ∧
      (c.reserve size label keep).2 = (c.arena.lend size label keep).2 := by
  unfold BuildContext.reserve Arena.lend
  rcases c.arena.reserve size label with ⟨a, _ | e | _⟩
  · cases keep <;> exact ⟨rfl, rfl⟩
  · exact ⟨rfl, rfl⟩
  · exact ⟨rfl, rfl⟩

namespace Work

/-- Whatever the calibrator answers, the work comes to an end like `e` when it starts in an arena and
nothing stops it. -/
def Settles (e : Ending) : Work → Arena → Prop
  | .done engine, _ => Ending.Alike (.engine engine) e
  | .fail cause, _ => Ending.Alike (.failure cause) e
  | .crash, _ => Ending.Alike .crashed e
  | .checkpoint next, a => (next none).Settles e a
  | .reserve size label keep next, a =>
    match a.lend size label keep with
    | (a, .granted) => (next none).Settles e a
    | (a, .refused cause) => (next (some cause)).Settles e a
    | (_, .crashed) => Ending.Alike .crashed e
  | .fire next, a => next.Settles e a
  | .pause _ next, a => next.Settles e a
  | .observe next, a => next.Settles e a
  | .readCache next, a => ∀ content?, (next content?).Settles e a
  | .drainBatches next, a => ∀ batches, (next batches).Settles e a
  | .writeCache _ next, a => next.Settles e a

variable {w w' : Work} {s s' : BuildState} {e : Ending}

/-- Work that asks for memory settles as the work does that is left after the answer. -/
theorem settles_reserve_iff {size : UInt64} {label : String} {keep : Bool}
    {next : Option MemoryError → Work} {a : Arena} :
    (Work.reserve size label keep next).Settles e a ↔
      ((a.lend size label keep).2.resume next).Settles e (a.lend size label keep).1 := by
  rw [Settles]
  rcases a.lend size label keep with ⟨a, _ | cause | _⟩ <;> rfl

/-- No step touches the budget. -/
theorem step_budget (h : w.step s = some (w', s')) : s'.context.budget = s.context.budget := by
  cases w with
  | done | fail | crash => cases h
  | reserve size label keep next =>
    cases h
    exact reserve_budget s.context size label keep
  | drainBatches next =>
    cases hfound : s.calibrator with
    | some c | none =>
      rw [step, hfound] at h
      cases h
      rfl
  | _ =>
    cases h
    rfl

/-- A signal that is fired stays so. -/
theorem step_signal (h : w.step s = some (w', s')) (hfired : s.context.signal = true) :
    s'.context.signal = true := by
  cases w with
  | done | fail | crash => cases h
  | reserve size label keep next =>
    cases h
    exact (reserve_signal s.context size label keep).trans hfired
  | fire next =>
    cases h
    rfl
  | drainBatches next =>
    cases hfound : s.calibrator with
    | some c | none =>
      rw [step, hfound] at h
      cases h
      exact hfired
  | _ =>
    cases h
    exact hfired

/-- A step that nothing stops keeps the end. A request is the one case that looks at the arena, and
there the context answers as `Arena.lend` does (`reserve_lend`). -/
theorem Settles.step (h : w.Settles e s.context.arena) (hstep : w.step s = some (w', s'))
    (hpasses : s.context.checkpoint.2 = none) : w'.Settles e s'.context.arena := by
  cases w with
  | done | fail | crash => cases hstep
  | checkpoint next =>
    rw [Work.step, hpasses] at hstep
    cases hstep
    exact h
  | reserve size label keep next =>
    obtain ⟨harena, hanswer⟩ := reserve_lend s.context size label keep
    cases hstep
    show ((s.context.reserve size label keep).2.resume next).Settles e
      (s.context.reserve size label keep).1.arena
    rw [harena, hanswer]
    exact settles_reserve_iff.mp h
  | readCache next =>
    cases hstep
    exact h _
  | drainBatches next =>
    cases hfound : s.calibrator with
    | some c | none =>
      rw [Work.step, hfound] at hstep
      cases hstep
      exact h _
  | _ =>
    cases hstep
    exact h

theorem Settles.alike {a : Arena} {e' : Ending} (h : w.Settles e a) (hend : w.ending? = some e') :
    e'.Alike e := by
  cases w with
  | done | fail | crash =>
    cases hend
    exact h
  | _ => cases hend

/-- Any number of steps keep the end, and the budget. Induction on the steps; that the budget never
stops the work is needed at each of them. -/
theorem Settles.steps {x y : Work × BuildState} (h : x.1.Settles e x.2.context.arena)
    (hb : ∀ signal, x.2.context.budget.NeverStops signal) (hsteps : Steps x y) :
    y.1.Settles e y.2.context.arena ∧ y.2.context.budget = x.2.context.budget := by
  induction hsteps with
  | refl => exact ⟨h, rfl⟩
  | @tail y z _ hstep ih =>
    obtain ⟨hsettles, hbudget⟩ := ih
    -- the budget is still the one of the start, which never stops the work
    have hpasses : y.2.context.checkpoint.2 = none := by
      show y.2.context.budget.check y.2.context.signal y.2.context.clock = none
      rw [hbudget]
      exact hb _ _
    exact ⟨hsettles.step hstep hpasses, (step_budget hstep).trans hbudget⟩

/-- Work that is never stopped comes to the end on which it settles. -/
theorem Settles.run_alike (h : w.Settles e s.context.arena)
    (hb : ∀ signal, s.context.budget.NeverStops signal) : (w.run s).2.Alike e := by
  obtain ⟨v, hsteps, hend⟩ := exists_steps_run w s
  have hv := (Settles.steps (x := (w, s)) h hb hsteps).1
  exact hv.alike hend

end Work

/-! ## Outcomes -/

/-- What went wrong with a build, if anything did. -/
def failure? : Except BuildError Artifact → Option BuildError
  | .ok _ => none
  | .error e => some e

theorem failure?_eq_some_iff {x : Except BuildError Artifact} {e : BuildError} :
    failure? x = some e ↔ x = .error e := by
  cases x <;> simp [failure?]

theorem failure?_eq_none_iff {x : Except BuildError Artifact} :
    failure? x = none ↔ ∃ a, x = .ok a := by
  cases x <;> simp [failure?]

/-- Left alone, the work comes to one end whatever the calibrator answers, and it does not say that
it was stopped. -/
def Work.ComesToAnEnd (w : Work) : Prop :=
  ∀ a, ∃ e, (∀ cause, e ≠ .failure (.interrupted cause)) ∧ w.Settles e a

/-- All work of the backend comes to an end of its own. -/
def Backend.Settled (b : Backend) : Prop := ∀ n o, (b.work n o).ComesToAnEnd

section Outcome

variable {backend : Backend} {g : ValidGraph} {r : Region} {s : Settings} {n : Network}
variable {e e' : Ending}

/-- Ends that are alike come to the same failure, whatever the arenas and the clock, which only a
report tells of. -/
theorem failure?_outcomeOf (h : e.Alike e') (before after before' after' : Arena)
    (clock clock' : Nat) :
    failure? (outcomeOf backend n before after clock e) =
      failure? (outcomeOf backend n before' after' clock' e') := by
  cases e with
  | engine bytes =>
    cases e' with
    | engine bytes' => rfl
    | failure | crashed => cases h
  | failure cause =>
    cases h
    cases cause <;> rfl
  | crashed =>
    cases h
    rfl

/-- Where the work was not stopped, the error is no cancellation and carries the region of the
network. -/
theorem outcomeOf_error {before after : Arena} {clock : Nat} {error : BuildError}
    (hstopped : ∀ cause, e ≠ .failure (.interrupted cause))
    (h : outcomeOf backend n before after clock e = .error error) :
    error.isCancelled = false ∧ error.region = n.region := by
  cases e with
  | engine bytes => cases h
  | failure cause =>
    cases cause with
    | interrupted cause => exact absurd rfl (hstopped cause)
    | layerRejected | outOfMemory | internal =>
      cases h
      exact ⟨rfl, rfl⟩
  | crashed =>
    cases h
    exact ⟨rfl, rfl⟩

/-- A region that is built alone comes out as the end says on which its work settles. -/
theorem failure?_buildAlone (hn : lower g r s = .ok n)
    (h : (backend.work n (.ofSettings s)).Settles e s.ownArena) (before after : Arena)
    (clock : Nat) :
    failure? (outcomeOf backend n before after clock e) = failure? (buildAlone backend g s r) := by
  have hunbounded : ∀ signal, BuildBudget.unbounded.NeverStops signal := by
    intro signal clock
    rfl
  let start : BuildState := ⟨.new n.region s.ownArena .unbounded false, s.usedCalibrator, []⟩
  have halike : ((backend.work n (.ofSettings s)).run start).2.Alike e :=
    Work.Settles.run_alike h hunbounded
  unfold buildAlone
  rw [build_of_lower hn, hunbounded false 0]
  exact (failure?_outcomeOf halike _ _ _ _ _ _).symm

/-- The failure of a region that is built alone is its own: it carries the region's number, and it
is no cancellation. -/
theorem buildAlone_error (hbackend : backend.Settled) (hn : lower g r s = .ok n)
    {error : BuildError} (h : buildAlone backend g s r = .error error) :
    error.isCancelled = false ∧ error.region = r.index := by
  obtain ⟨e, hstopped, hsettles⟩ := hbackend n (.ofSettings s) s.ownArena
  -- the arenas and the clock are those of an artifact, and there is none
  have hown := failure?_buildAlone hn hsettles s.ownArena s.ownArena 0
  rw [failure?_eq_some_iff.mpr h, failure?_eq_some_iff] at hown
  have hregion : n.region = r.index := (lower_eq_ok_iff.mp hn).2.2.2.1
  rw [← hregion]
  exact outcomeOf_error hstopped hown

end Outcome

/-! ## The reference backend -/

section Reference

open ReferenceBackend

variable {next : Work}

theorem comesToAnEnd_fail {cause : BackendError} (h : ∀ cause', cause ≠ .interrupted cause') :
    (Work.fail cause).ComesToAnEnd := by
  intro a
  refine ⟨.failure cause, fun cause' heq => ?_, rfl⟩
  cases heq
  exact h cause' rfl

/-- A layer's workspace is granted, refused or not countable, whatever the calibrator answers; after
a grant the end is that of the work that comes next. -/
theorem comesToAnEnd_withWorkspace (b : ReferenceBackend) (layer : Layer)
    (hnext : next.ComesToAnEnd) : (b.withWorkspace layer next).ComesToAnEnd := by
  intro a
  unfold withWorkspace
  split
  · exact hnext a
  · let answered := a.lend b.layerWorkspace s!"{layer.name}:workspace" true
    have hresumed : (answered.2.resume (onceGranted next)).ComesToAnEnd := by
      refine Reply.resume_of_forall ?_ ?_ answered.2
      · rintro (_ | error)
        · exact hnext
        · exact comesToAnEnd_fail fun cause h => (by cases h)
      · exact fun a => ⟨.crashed, fun cause h => (by cases h), rfl⟩
    obtain ⟨e, hstopped, hsettles⟩ := hresumed answered.1
    exact ⟨e, hstopped, Work.settles_reserve_iff.mpr hsettles⟩

/-- Layers in front of work that comes to an end do so too. Induction on the layers. -/
theorem comesToAnEnd_layersWork (b : ReferenceBackend) (hnext : next.ComesToAnEnd)
    (layers : List Layer) : (b.layersWork next layers).ComesToAnEnd := by
  induction layers with
  | nil => exact hnext
  | cons layer rest ih =>
    -- the checkpoint before the layer lets the work go on
    show Work.ComesToAnEnd (if b.rejected.contains layer.kind then
        .fail (.layerRejected layer.name s!"no converter for '{layer.kind}'")
      else b.withWorkspace layer (.pause b.layerDelay (b.layersWork next rest)))
    split
    · exact comesToAnEnd_fail fun cause h => (by cases h)
    · exact comesToAnEnd_withWorkspace b layer ih

/-- The reference backend is settled: the layers come to an end by `comesToAnEnd_layersWork`, and
the calibration ends with an engine whatever is in it. -/
theorem settled_reference (b : ReferenceBackend) : b.toBackend.Settled := by
  intro n o
  refine comesToAnEnd_layersWork b ?_ n.layers
  intro a
  refine ⟨.engine [], fun cause h => (by cases h), ?_⟩
  show (calibrationWork o fun calibration =>
    .done (Utf8.encode (engineImage n o calibration).compact)).Settles (.engine []) a
  unfold calibrationWork
  split
  · rintro (_ | content)
    · exact fun batches => True.intro
    · exact True.intro
  · exact True.intro

end Reference

end HybridCompile
