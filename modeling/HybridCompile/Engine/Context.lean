import HybridCompile.Engine.Budget
import HybridCompile.Memory.Ledger

/-!
# HybridCompile — build contexts

What a backend can touch while it builds one engine: the device's memory, and the checkpoints at
which it learns whether to go on. Memory that it keeps is given back when the build is over,
however it ends.
-/

namespace HybridCompile

/-- The surroundings of one build. -/
structure BuildContext where
  region : Nat
  arena : Arena
  budget : BuildBudget
  /-- The reservations kept until the build is over. -/
  held : List Reservation
  /-- How many checkpoints were passed or failed. -/
  checkpoints : Nat
  /-- Whether the caller's signal is fired. -/
  signal : Bool
  /-- The time since the start of the build. -/
  clock : Nat
  deriving DecidableEq, Repr

/-- What a context shows from outside. -/
structure Snapshot where
  region : Nat
  heldBytes : UInt64
  checkpoints : Nat
  liveBytes : UInt64
  deriving DecidableEq, Repr

namespace BuildContext

def new (region : Nat) (arena : Arena) (budget : BuildBudget) (signal : Bool) : BuildContext :=
  ⟨region, arena, budget, [], 0, signal, 0⟩

def heldBytes (c : BuildContext) : UInt64 := c.held.foldl (fun bytes r => bytes + r.size) 0

/-- Pass a checkpoint, or learn why the build has to stop. -/
def checkpoint (c : BuildContext) : BuildContext × Option CancelCause :=
  ({ c with checkpoints := c.checkpoints + 1 }, c.budget.check c.signal c.clock)

/-- Reserve memory, to be kept until the build is over or given back at once. A request that is not
granted leaves nothing to keep. -/
def reserve (c : BuildContext) (size : UInt64) (label : String) (keep : Bool) :
    BuildContext × Reply :=
  match c.arena.reserve size label with
  | (arena, .granted) =>
    if keep then ({ c with arena, held := c.held ++ [⟨label, size⟩] }, .granted)
    else ({ c with arena := arena.release size }, .granted)
  | (arena, answer) => ({ c with arena }, answer)

/-- The arena answers, whether the memory is to be kept or not. -/
theorem reserve_snd (c : BuildContext) (size : UInt64) (label : String) (keep : Bool) :
    (c.reserve size label keep).2 = (c.arena.reserve size label).2 := by
  rw [reserve]
  rcases c.arena.reserve size label with ⟨arena, _ | e | _⟩
  · cases keep <;> rfl
  · rfl
  · rfl

@[simp] theorem checkpoint_arena (c : BuildContext) : c.checkpoint.1.arena = c.arena := rfl

def fire (c : BuildContext) : BuildContext := { c with signal := true }

def pause (c : BuildContext) (ms : Nat) : BuildContext := { c with clock := c.clock + ms }

def snapshot (c : BuildContext) : Snapshot :=
  ⟨c.region, c.heldBytes, c.checkpoints, c.arena.liveBytes⟩

/-- The memory once the build is over and what it kept is given back. -/
def close (c : BuildContext) : Arena :=
  c.held.foldl (fun arena r => arena.release r.size) c.arena

end BuildContext

end HybridCompile
