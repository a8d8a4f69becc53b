import HybridCompile.Memory.Ledger
import Mathlib.Data.List.Induction

/-!
# HybridCompile — histories of a ledger

The memory of a device is used in steps: something is reserved, or a reservation is given back. The
steps may come from many clients in any order, and they go on when one of the clients has broken
down. What a step does to the ledger, and what came of it, is said once, and all that is known of
whole histories follows from that.

* `Ledger.Step`, `Ledger.step`, `Ledger.run` — steps, and histories of steps.
* `Ledger.Event`, `Ledger.events` — what came of them.
* `Ledger.Transition`, `transition_step` — all that a step can do.
* `holds_of_transition` — what every transition keeps holds after every history.
-/

namespace HybridCompile

namespace Ledger

/-- Something asked of a ledger. -/
inductive Step where
  | reserve (size : UInt64) (label : String)
  /-- Give back the reservation with a number. -/
  | release (number : Nat)
  deriving DecidableEq, Repr

/-- What came of a step. -/
inductive Event where
  | granted (size : UInt64)
  /-- The memory did not suffice. -/
  | refused
  /-- Nothing was asked for. -/
  | zeroSized
  | returned (size : UInt64)
  /-- No such reservation is held. -/
  | idle
  /-- It fitted, but the one who asked broke down while it was counted: nobody holds the bytes. -/
  | lost (size : UInt64)
  /-- It did not fit, and the one who asked broke down while that was counted. -/
  | uncounted
  deriving DecidableEq, Repr

/-- The bytes that were granted. -/
def Event.granted? : Event → Option UInt64
  | granted size => some size
  | _ => none

/-- The bytes that came back. -/
def Event.returned? : Event → Option UInt64
  | returned size => some size
  | _ => none

/-- The bytes that stayed behind when the one who asked for them broke down. -/
def Event.lost? : Event → Option UInt64
  | lost size => some size
  | _ => none

/-- Whether someone broke down. -/
def Event.isCrash : Event → Bool
  | lost _ | uncounted => true
  | granted _ | refused | zeroSized | returned _ | idle => false

/-- What a step does to a ledger, and what came of it. A request that breaks down is told apart by
whether it fitted. -/
def step (l : Ledger) : Step → Ledger × Event
  | .reserve size label =>
    match l.reserve size label with
    | (l', .granted) => (l', .granted size)
    | (l', .refused (.outOfMemory ..)) => (l', .refused)
    | (l', .refused (.zeroSized _)) => (l', .zeroSized)
    | (l', .crashed) => (l', if l.arena.fits size then .lost size else .uncounted)
  | .release number => (l.release number, ((l.get? number).map (.returned ·.size)).getD .idle)

/-- A ledger after some steps. -/
def run (l : Ledger) (steps : List Step) : Ledger := steps.foldl (fun l s => (l.step s).1) l

/-- What came of each of some steps, in order. -/
def events (l : Ledger) : List Step → List Event
  | [] => []
  | s :: rest => (l.step s).2 :: events (l.step s).1 rest

/-- All that a step can do to a ledger, by what came of it. The cases of a request are those of
`Arena.Answers`. -/
inductive Transition (l : Ledger) : Event → Ledger → Prop where
  | granted {size : UInt64} {stats? : Option ArenaStats} (label : String) (hpos : size ≠ 0)
      (hfits : l.arena.fits size = true)
      (hcounts : Arena.Counts (·.addReservation size (l.arena.liveBytes + size))
        l.arena.stats? stats?) :
      Transition l (.granted size)
        ⟨{ l.arena with liveBytes := l.arena.liveBytes + size, stats? },
          l.slots ++ [some ⟨label, size⟩]⟩
  | lost {size : UInt64} {stats : ArenaStats} (hpos : size ≠ 0)
      (hfits : l.arena.fits size = true) (hsome : l.arena.stats? = some stats)
      (hover : stats.addReservation size (l.arena.liveBytes + size) = none) :
      Transition l (.lost size)
        ⟨{ l.arena with liveBytes := l.arena.liveBytes + size, stats? := none }, l.slots⟩
  | refused {size : UInt64} {stats? : Option ArenaStats} (hpos : size ≠ 0)
      (hfull : ¬ l.arena.fits size = true)
      (hcounts : Arena.Counts ArenaStats.addRejection l.arena.stats? stats?) :
      Transition l .refused ⟨{ l.arena with stats? }, l.slots⟩
  | uncounted {size : UInt64} {stats : ArenaStats} (hpos : size ≠ 0)
      (hfull : ¬ l.arena.fits size = true) (hsome : l.arena.stats? = some stats)
      (hover : stats.addRejection = none) :
      Transition l .uncounted ⟨{ l.arena with stats? := none }, l.slots⟩
  | zeroSized : Transition l .zeroSized l
  | returned {number : Nat} {r : Reservation} (hheld : l.get? number = some r) :
      Transition l (.returned r.size) ⟨l.arena.release r.size, l.slots.set number none⟩
  | idle : Transition l .idle l

/-- Every `Ledger.step` is one of the transitions, with the event that it tells. A request is split
by `Arena.answers_reserve`, a release by whether the number is held. -/
theorem transition_step (l : Ledger) (s : Step) : l.Transition (l.step s).2 (l.step s).1 := by
  cases s with
  | reserve size label =>
    have hanswers := l.arena.answers_reserve size label
    simp only [step, Ledger.reserve]
    generalize l.arena.reserve size label = answered at hanswers ⊢
    cases hanswers with
    | zeroSized hzero => exact .zeroSized
    | granted hpos hfits hcounts => exact .granted label hpos hfits hcounts
    | lost hpos hfits hsome hover =>
      simp only [hfits, if_true]
      exact .lost hpos hfits hsome hover
    | refused hpos hfull hcounts => exact .refused hpos hfull hcounts
    | uncounted hpos hfull hsome hover =>
      simp only [hfull]
      exact .uncounted hpos hfull hsome hover
  | release number =>
    cases hheld : l.get? number with
    | none =>
      simp only [step, Ledger.release, hheld]
      exact .idle
    | some r =>
      simp only [step, Ledger.release, hheld]
      exact .returned hheld

/-- Statistics that are lost stay lost. -/
theorem Transition.stats?_eq_none {l l' : Ledger} {e : Event} (ht : l.Transition e l')
    (hlost : l.arena.stats? = none) : l'.arena.stats? = none := by
  cases ht with
  | granted _ _ _ hcounts | refused _ _ hcounts => exact hcounts.eq_none_iff.mpr hlost
  | lost | uncounted => rfl
  | zeroSized | idle => exact hlost
  | returned hheld => rw [Arena.release, hlost]; rfl

theorem run_concat (l : Ledger) (steps : List Step) (s : Step) :
    l.run (steps ++ [s]) = ((l.run steps).step s).1 := by
  rw [run, List.foldl_append]
  rfl

/-- One step more adds its event to those of the others. Induction on the steps. -/
theorem events_concat (l : Ledger) (steps : List Step) (s : Step) :
    l.events (steps ++ [s]) = l.events steps ++ [((l.run steps).step s).2] := by
  induction steps generalizing l with
  | nil => rfl
  | cons first rest ih => exact congrArg ((l.step first).2 :: ·) (ih (l.step first).1)

/-- A history goes on from where its first part has come. -/
theorem run_append (l : Ledger) (steps later : List Step) :
    l.run (steps ++ later) = (l.run steps).run later :=
  List.foldl_append

/-- The events of two stretches are those of the one and then, from where it has come, those of the
other. Induction on the first stretch. -/
theorem events_append (l : Ledger) (steps later : List Step) :
    l.events (steps ++ later) = l.events steps ++ (l.run steps).events later := by
  induction steps generalizing l with
  | nil => rfl
  | cons first rest ih => exact congrArg ((l.step first).2 :: ·) (ih (l.step first).1)

/-- What holds at the start, and is kept by everything that a step can do, holds after every
history. The induction takes the steps from the end, and the events so far are carried along; with
it an invariant of ledgers is proved by the cases of `Transition` alone. -/
theorem holds_of_transition {start : Ledger} {P : List Event → Ledger → Prop} (hstart : P [] start)
    (hstep : ∀ {events e} {l l' : Ledger}, P events l → l.Transition e l' → P (events ++ [e]) l')
    (steps : List Step) : P (start.events steps) (start.run steps) := by
  induction steps using List.reverseRecOn with
  | nil => exact hstart
  | append_singleton steps s ih =>
    rw [run_concat, events_concat]
    exact hstep ih (transition_step _ s)

end Ledger

end HybridCompile
