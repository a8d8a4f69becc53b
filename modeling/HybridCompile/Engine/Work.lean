import HybridCompile.Calibration.Calibrator
import HybridCompile.Engine.Context

/-!
# HybridCompile — the work of a backend

What a backend does to build an engine is a tree of steps. Each step does one thing in the build's
context or with the calibrator, and the answer decides how the work goes on. The tree ends with the
bytes of an engine, with an error, or with the backend breaking down.

* `Work` — the tree; `Work.run` carries it out.
* `Reply.resume` — how work goes on after a request for memory.
* `Ending` — how it ends: with an engine, with a `BackendError`, or broken down.
-/

namespace HybridCompile

/-- Why a backend gives up. -/
inductive BackendError where
  /-- It cannot build a layer. -/
  | layerRejected (layer reason : String)
  | outOfMemory (e : MemoryError)
  /-- It was stopped at a checkpoint. -/
  | interrupted (cause : CancelCause)
  | internal (reason : String)
  deriving DecidableEq, Repr

def BackendError.message : BackendError → String
  | layerRejected layer reason => s!"layer '{layer}': {reason}"
  | outOfMemory e => e.message
  | interrupted cause => s!"build interrupted: {cause.text}"
  | internal reason => reason

/-- What is left to do. -/
inductive Work where
  /-- The engine is built. -/
  | done (engine : Bytes)
  /-- The backend gives up. -/
  | fail (e : BackendError)
  /-- The backend breaks down. -/
  | crash
  /-- Pass a checkpoint. -/
  | checkpoint (next : Option CancelCause → Work)
  /-- Reserve memory, to be kept or to be given back at once. -/
  | reserve (size : UInt64) (label : String) (keep : Bool) (next : Option MemoryError → Work)
  /-- Fire the caller's signal. -/
  | fire (next : Work)
  /-- Let time pass. -/
  | pause (ms : Nat) (next : Work)
  /-- Note what the context shows. -/
  | observe (next : Work)
  /-- Read the calibrator's cache. -/
  | readCache (next : Option Bytes → Work)
  /-- Take every batch that the calibrator has left. -/
  | drainBatches (next : List (List Number.Sample) → Work)
  /-- Write the calibrator's cache. -/
  | writeCache (content : Bytes) (next : Work)

/-- How work ends. -/
inductive Ending where
  | engine (bytes : Bytes)
  | failure (e : BackendError)
  | crashed
  deriving DecidableEq, Repr

/-- What work acts upon. -/
structure BuildState where
  context : BuildContext
  calibrator : Option Calibrator
  /-- What was noted so far. -/
  journal : List Snapshot
  deriving DecidableEq, Repr

/-- How work goes on after a request for memory, when `next` says how it goes on after an answer. -/
def Reply.resume (next : Option MemoryError → Work) : Reply → Work
  | granted => next none
  | refused e => next (some e)
  | crashed => .crash

/-- Carry work out. Without a calibrator its cache is empty and it has no batch. -/
def Work.run : Work → BuildState → BuildState × Ending
  | .done engine, s => (s, .engine engine)
  | .fail e, s => (s, .failure e)
  | .crash, s => (s, .crashed)
  | .checkpoint next, s =>
    let r := s.context.checkpoint
    run (next r.2) { s with context := r.1 }
  | .reserve size label keep next, s =>
    match s.context.reserve size label keep with
    | (context, .granted) => run (next none) { s with context }
    | (context, .refused e) => run (next (some e)) { s with context }
    -- A request that cannot be counted takes the backend down with it.
    | (context, .crashed) => ({ s with context }, .crashed)
  | .fire next, s => run next { s with context := s.context.fire }
  | .pause ms next, s => run next { s with context := s.context.pause ms }
  | .observe next, s => run next { s with journal := s.journal ++ [s.context.snapshot] }
  | .readCache next, s => run (next (s.calibrator.bind Calibrator.readCache)) s
  | .drainBatches next, s =>
    match s.calibrator with
    | some c => run (next c.drain.1) { s with calibrator := some c.drain.2 }
    | none => run (next []) s
  | .writeCache content next, s =>
    run next { s with calibrator := s.calibrator.map (·.writeCache content) }

/-- What holds of the work after every answer, and of none at all, holds whatever the answer. -/
theorem Reply.resume_of_forall {P : Work → Prop} {next : Option MemoryError → Work}
    (hnext : ∀ e?, P (next e?)) (hcrash : P .crash) (reply : Reply) : P (reply.resume next) := by
  cases reply with
  | granted => exact hnext none
  | refused e => exact hnext (some e)
  | crashed => exact hcrash

/-- Work that asks for memory goes on as the answer says, in the context that the request leaves. -/
theorem Work.run_reserve (size : UInt64) (label : String) (keep : Bool)
    (next : Option MemoryError → Work) (s : BuildState) :
    (Work.reserve size label keep next).run s =
      ((s.context.reserve size label keep).2.resume next).run
        { s with context := (s.context.reserve size label keep).1 } := by
  rw [run]
  rcases s.context.reserve size label keep with ⟨context, _ | e | _⟩ <;> rfl

end HybridCompile
