/-!
# HybridCompile — build budgets

How long a build may go on: until its token is fired, until the caller's signal is fired if the
build follows it, and until its deadline. A build looks at its budget only at checkpoints.

Time is counted in milliseconds from the start of the build.
-/

namespace HybridCompile

/-- Why a build is stopped. -/
inductive CancelCause where
  | cancelled
  | deadlineExceeded
  deriving DecidableEq, Repr

namespace CancelCause

def text : CancelCause → String
  | cancelled => "cancelled"
  | deadlineExceeded => "deadline exceeded"

def name : CancelCause → String
  | cancelled => "cancelled"
  | deadlineExceeded => "deadline_exceeded"

end CancelCause

/-- The bounds of a build. -/
structure BuildBudget where
  /-- The time at which the build has to be done. -/
  deadline? : Option Nat
  /-- Whether the build's own token is fired. -/
  cancelled : Bool
  /-- Whether the caller's signal stops the build. -/
  followsSignal : Bool
  deriving DecidableEq, Repr

namespace BuildBudget

/-- No bound at all. -/
def unbounded : BuildBudget := ⟨none, false, false⟩

/-- No bound but the caller's signal. -/
def following : BuildBudget := ⟨none, false, true⟩

/-- Why the build has to stop, if it has to; `signal` says whether the caller's signal is fired.
A fired token comes before a deadline that has passed. -/
def check (b : BuildBudget) (signal : Bool) (clock : Nat) : Option CancelCause :=
  if b.cancelled || (b.followsSignal && signal) then some .cancelled
  else if b.deadline?.any (· ≤ clock) then some .deadlineExceeded
  else none

/-- The time left until the deadline, if there is one. -/
def remaining? (b : BuildBudget) (clock : Nat) : Option Nat :=
  b.deadline?.map (· - clock)

end BuildBudget

end HybridCompile
