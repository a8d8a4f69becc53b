import HybridCompile.Engine.Work
import Mathlib.Logic.Relation

/-!
# HybridCompile — work step by step

Carrying work out is doing one step after another until it is over. The states in between are what
others see of a build while it runs.

* `Work.step`, `Work.Steps` — one step, and any number of them.
* `exists_steps_run`, `run_eq_iff` — the steps come to an end, and it is that of the whole work.
* `holds_of_steps` — what every step keeps, holds all the while.
-/

namespace HybridCompile

namespace Work

/-- One step of work: what is left to do, and the state in which it goes on. There is none once the
work is over. -/
def step : Work → BuildState → Option (Work × BuildState)
  | .done _, _ => none
  | .fail _, _ => none
  | .crash, _ => none
  | .checkpoint next, s =>
    let r := s.context.checkpoint
    some (next r.2, { s with context := r.1 })
  | .reserve size label keep next, s =>
    let r := s.context.reserve size label keep
    some (r.2.resume next, { s with context := r.1 })
  | .fire next, s => some (next, { s with context := s.context.fire })
  | .pause ms next, s => some (next, { s with context := s.context.pause ms })
  | .observe next, s => some (next, { s with journal := s.journal ++ [s.context.snapshot] })
  | .readCache next, s => some (next (s.calibrator.bind Calibrator.readCache), s)
  | .drainBatches next, s =>
    match s.calibrator with
    | some c => some (next c.drain.1, { s with calibrator := some c.drain.2 })
    | none => some (next [], s)
  | .writeCache content next, s =>
    some (next, { s with calibrator := s.calibrator.map (·.writeCache content) })

/-- How work has ended, if it is over. -/
def ending? : Work → Option Ending
  | .done engine => some (.engine engine)
  | .fail e => some (.failure e)
  | .crash => some .crashed
  | _ => none

/-- Any number of steps, from work and a state to what is left of it and the state then. -/
def Steps : Work × BuildState → Work × BuildState → Prop :=
  Relation.ReflTransGen fun x y => x.1.step x.2 = some y

variable {w w' : Work} {s s' : BuildState}

/-- After a step the work that is left ends as the whole does. The cases are the steps, each one
clause of `Work.run`. -/
theorem run_eq_of_step (h : w.step s = some (w', s')) : w.run s = w'.run s' := by
  cases w with
  | done | fail | crash => cases h
  | drainBatches next =>
    cases hfound : s.calibrator with
    | some c | none =>
      rw [step, hfound] at h
      cases h
      rw [run, hfound]
  | reserve size label keep next =>
    cases h
    exact run_reserve size label keep next s
  | _ =>
    cases h
    rfl

/-- So does what is left after any number of steps. Induction on the steps. -/
theorem run_eq_of_steps {x y : Work × BuildState} (h : Steps x y) : x.1.run x.2 = y.1.run y.2 := by
  induction h with
  | refl => rfl
  | tail _ hstep ih => exact ih.trans (run_eq_of_step hstep)

theorem run_of_ending? {e : Ending} (h : w.ending? = some e) (s : BuildState) :
    w.run s = (s, e) := by
  cases w with
  | done | fail | crash =>
    cases h
    rfl
  | _ => cases h

theorem steps_run_of_step (hstep : w.step s = some (w', s'))
    (h : ∃ v, Steps (w', s') (v, (w'.run s').1) ∧ v.ending? = some (w'.run s').2) :
    ∃ v, Steps (w, s) (v, (w.run s).1) ∧ v.ending? = some (w.run s).2 := by
  rw [run_eq_of_step hstep]
  obtain ⟨v, hsteps, hending⟩ := h
  exact ⟨v, .head hstep hsteps, hending⟩

/-- Work comes to its end step by step, in the state in which carrying it out ends. Induction on the
work, over all states; each case takes its step by `steps_run_of_step`. -/
theorem exists_steps_run (w : Work) (s : BuildState) :
    ∃ v, Steps (w, s) (v, (w.run s).1) ∧ v.ending? = some (w.run s).2 := by
  induction w generalizing s with
  | done | fail | crash => exact ⟨_, .refl, rfl⟩
  | checkpoint next ih => exact steps_run_of_step rfl (ih _ _)
  | reserve size label keep next ih =>
    refine steps_run_of_step rfl ?_
    generalize s.context.reserve size label keep = answered
    -- Nothing is left to do for a backend that broke down.
    obtain ⟨context, _ | e | _⟩ := answered
    · exact ih none _
    · exact ih (some e) _
    · exact ⟨.crash, .refl, rfl⟩
  | fire next ih => exact steps_run_of_step rfl (ih _)
  | pause ms next ih => exact steps_run_of_step rfl (ih _)
  | observe next ih => exact steps_run_of_step rfl (ih _)
  | readCache next ih => exact steps_run_of_step rfl (ih _ _)
  | drainBatches next ih =>
    cases hfound : s.calibrator with
    | some c => exact steps_run_of_step (by rw [step, hfound]) (ih _ _)
    | none => exact steps_run_of_step (by rw [step, hfound]) (ih _ _)
  | writeCache content next ih => exact steps_run_of_step rfl (ih _)

/-- Carrying work out and doing it step by step end in the same way. -/
theorem run_eq_iff {e : Ending} :
    w.run s = (s', e) ↔ ∃ v, Steps (w, s) (v, s') ∧ v.ending? = some e := by
  constructor
  · intro hrun
    have hsteps := exists_steps_run w s
    rwa [hrun] at hsteps
  · rintro ⟨v, hsteps, hending⟩
    exact (run_eq_of_steps hsteps).trans (run_of_ending? hending s')

/-- What holds at the start and is kept by every `Work.step`, of what is left to do and of the state,
holds all the while. -/
theorem holds_of_steps {P : Work × BuildState → Prop} {x y : Work × BuildState} (h : Steps x y)
    (hstart : P x) (hkeeps : ∀ {x y : Work × BuildState}, P x → x.1.step x.2 = some y → P y) :
    P y := by
  induction h with
  | refl => exact hstart
  | tail _ hstep ih => exact hkeeps ih hstep

end Work

end HybridCompile
