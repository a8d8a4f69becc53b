import HybridCompile.Proofs.Concurrency.Compilation

/-!
# HybridCompile — the calls of a session, side by side

A session may be asked for any number of compilations at one time. Each call has permits of its own,
as many as the configuration says, and a task for each region: it takes a permit, then the lock of
its call's device if the backend is not thread-safe, then it builds, and in the end it gives both
back. The locks are kept in one table for all calls, by the key of the device; a call that asks for a
key that is not there puts a new lock into the table.

* `DeviceLocks` — the table, and whether each lock is taken.
* `Call`, `Workload` — a call under way, and all of them.
* `BuildTask.Move`, `Workload.Move`, `Workload.Step` — what a task may do next, and what the whole.
* `Workload.WaitsFor` — which task keeps another one from going on.
-/

namespace HybridCompile

/-- How many builds of a call may run at one time, on a machine that would have `machine` by itself.
It is never none. -/
def Config.permits (c : Config) (machine : Nat) : Nat :=
  c.parallelism?.getD (max machine 1)

theorem Config.permits_pos (c : Config) (machine : Nat) : 0 < c.permits machine := by
  unfold permits parallelism?
  cases c.maxParallelBuilds with
  | none => exact Nat.lt_of_lt_of_le Nat.zero_lt_one (Nat.le_max_right _ _)
  | some n => exact Nat.lt_of_lt_of_le Nat.zero_lt_one (Nat.le_max_right _ _)

/-- What a configuration sets is what counts. -/
theorem Config.permits_eq {c : Config} {n : UInt64} (h : c.maxParallelBuilds = some n)
    (hpos : 1 ≤ n.toNat) (machine : Nat) : c.permits machine = n.toNat := by
  have hmax : max n.toNat 1 = n.toNat := Nat.max_eq_left hpos
  rw [permits, parallelism?, h, Option.map_some, Option.getD_some, hmax]

/-- The build of a task has ended, whether its result is taken in or not. -/
def Stage.isOver : Stage → Bool
  | ended _ => true
  | joined => true
  | _ => false

/-! ## Locks -/

/-- The locks of devices. -/
structure DeviceLocks where
  /-- The lock of each key that was asked for. -/
  table : List (DeviceKey × Nat)
  /-- Whether each lock is taken. -/
  taken : List Bool
  deriving DecidableEq, Repr

namespace DeviceLocks

def empty : DeviceLocks := ⟨[], []⟩

/-- The lock of a key. -/
def lock? (locks : DeviceLocks) (key : DeviceKey) : Option Nat := locks.table.lookup key

/-- The lock of a key, which is put into the table if it is not there. -/
def entry (locks : DeviceLocks) (key : DeviceKey) : DeviceLocks × Nat :=
  match locks.lock? key with
  | some lock => (locks, lock)
  | none =>
    (⟨(key, locks.taken.length) :: locks.table, locks.taken ++ [false]⟩, locks.taken.length)

theorem entry_of_some {locks : DeviceLocks} {key : DeviceKey} {lock : Nat}
    (h : locks.lock? key = some lock) : locks.entry key = (locks, lock) := by
  rw [entry, h]

theorem entry_of_none {locks : DeviceLocks} {key : DeviceKey} (h : locks.lock? key = none) :
    locks.entry key =
      (⟨(key, locks.taken.length) :: locks.table, locks.taken ++ [false]⟩, locks.taken.length) := by
  rw [entry, h]

def take (locks : DeviceLocks) (lock : Nat) : DeviceLocks :=
  { locks with taken := locks.taken.set lock true }

def release (locks : DeviceLocks) (lock : Nat) : DeviceLocks :=
  { locks with taken := locks.taken.set lock false }

def IsTaken (locks : DeviceLocks) (lock : Nat) : Prop := locks.taken[lock]? = some true

/-- The lock is there, and nobody has it. -/
def IsFree (locks : DeviceLocks) (lock : Nat) : Prop := locks.taken[lock]? = some false

instance (locks : DeviceLocks) (lock : Nat) : Decidable (locks.IsFree lock) :=
  inferInstanceAs (Decidable (_ = _))

end DeviceLocks

/-! ## Calls -/

/-- The task of a region. -/
structure BuildTask where
  region : Region
  stage : Stage
  /-- Whether it has the lock of the device. -/
  hasDevice : Bool

/-- A call under way. -/
structure Call where
  graph : ValidGraph
  settings : Settings
  /-- The lock of its device; none if the backend is thread-safe. -/
  lock? : Option Nat
  tasks : List BuildTask
  progress : Progress

namespace Call

/-- A call none of whose tasks has begun. -/
def start (g : ValidGraph) (s : Settings) (plan : Plan) (lock? : Option Nat) (signal : Bool) : Call :=
  ⟨g, s, lock?, plan.acceleratorRegions.map fun r => ⟨r, .waiting, false⟩, .start s signal⟩

def key (call : Call) : DeviceKey := call.settings.device.key

def permitsTaken (call : Call) : Nat := call.tasks.countP fun t => t.stage.holdsPermit

/-- The call after one of its tasks has moved. -/
def moved (call : Call) (task : Nat) (t : BuildTask) (p : Progress) : Call :=
  { call with tasks := call.tasks.set task t, progress := p }

end Call

/-- What a task of a call may do next: the locks, the task and the progress of the call after it. -/
inductive BuildTask.Move (session : Session) (permits : Nat) (locks : DeviceLocks) (call : Call) :
    BuildTask → DeviceLocks → BuildTask → Progress → Prop
  /-- It takes a permit. -/
  | grant {t : BuildTask} (hwaits : t.stage = .waiting) (hpermit : call.permitsTaken < permits) :
      Move session permits locks call t locks { t with stage := .admitted } call.progress
  /-- It takes the lock of the device. -/
  | acquire {t : BuildTask} {lock : Nat} (hadmitted : t.stage = .admitted)
      (hnone : t.hasDevice = false) (hlock : call.lock? = some lock) (hfree : locks.IsFree lock) :
      Move session permits locks call t (locks.take lock) { t with hasDevice := true } call.progress
  /-- It goes on with its build, and keeps the lock if it has it. -/
  | build {t : BuildTask} {stage : Stage} {p : Progress}
      (h : TaskStep session call.graph call.settings t.region t.stage call.progress stage p)
      (hdevice : t.stage = .admitted → call.lock? = none ∨ t.hasDevice = true)
      (hkeeps : stage.holdsPermit = true ∨ t.hasDevice = false) :
      Move session permits locks call t locks { t with stage } p
  /-- Its build is over, and it gives the lock back together with the permit. -/
  | leave {t : BuildTask} {stage : Stage} {p : Progress} {lock : Nat}
      (h : TaskStep session call.graph call.settings t.region t.stage call.progress stage p)
      (hlock : call.lock? = some lock) (hhas : t.hasDevice = true)
      (hends : stage.holdsPermit = false) :
      Move session permits locks call t (locks.release lock) { t with stage, hasDevice := false } p

/-- Where a task is found: the number of its call, and its own number there. -/
structure Place where
  call : Nat
  task : Nat
  deriving DecidableEq, Repr

/-- What others can see of a task. -/
structure Standing where
  key : DeviceKey
  lock? : Option Nat
  task : BuildTask

/-- The calls of a session, with the locks that they share. -/
structure Workload where
  locks : DeviceLocks
  calls : List Call

namespace Workload

def empty : Workload := ⟨.empty, []⟩

/-- What is found at a place. -/
structure At (σ : Workload) (place : Place) (call : Call) (t : BuildTask) : Prop where
  call_eq : σ.calls[place.call]? = some call
  task_eq : call.tasks[place.task]? = some t

/-- What others can see of the task at a place: the device and the lock of its call, and the task
itself. -/
def at? (σ : Workload) (place : Place) : Option Standing := do
  let call ← σ.calls[place.call]?
  let task ← call.tasks[place.task]?
  return ⟨call.key, call.lock?, task⟩

/-- The task at a place has a lock. -/
def Holds (σ : Workload) (place : Place) (lock : Nat) : Prop :=
  ∃ v, σ.at? place = some v ∧ v.lock? = some lock ∧ v.task.hasDevice = true

/-- One more call. Its lock is asked for only if the backend is not thread-safe. -/
def receive (session : Session) (σ : Workload) (g : ValidGraph) (s : Settings) (plan : Plan)
    (signal : Bool) : Workload :=
  if session.backend.threadSafe then ⟨σ.locks, σ.calls ++ [.start g s plan none signal]⟩
  else
    let (locks, lock) := σ.locks.entry s.device.key
    ⟨locks, σ.calls ++ [.start g s plan (some lock) signal]⟩

/-- What the task at a place may do next. -/
inductive Move (session : Session) (permits : Nat) (σ : Workload) (place : Place) : Workload → Prop
  | mk {call : Call} {t t' : BuildTask} {locks : DeviceLocks} {p : Progress}
      (hat : σ.At place call t) (h : t.Move session permits σ.locks call locks t' p) :
      Move session permits σ place ⟨locks, σ.calls.set place.call (call.moved place.task t' p)⟩

/-- What may happen next. -/
inductive Step (session : Session) (permits : Nat) : Workload → Workload → Prop
  /-- A call comes in. -/
  | call (σ : Workload) {g : ValidGraph} {s : Settings} {plan : Plan}
      (hplan : session.plan g s = .ok plan) (signal : Bool) :
      Step session permits σ (σ.receive session g s plan signal)
  | move {σ σ' : Workload} (place : Place) (h : σ.Move session permits place σ') :
      Step session permits σ σ'
  /-- The caller fires its signal, or somebody else uses the calibrator of a call. -/
  | outside (σ : Workload) {number : Nat} {call : Call} (hcall : σ.calls[number]? = some call)
      (signal : Bool) (calibrator : Option Calibrator) :
      Step session permits σ ⟨σ.locks,
        σ.calls.set number { call with progress := { call.progress with signal, calibrator } }⟩

def Reachable (session : Session) (permits : Nat) (σ : Workload) : Prop :=
  Relation.ReflTransGen (Step session permits) empty σ

/-- The task at the one place cannot go on because of the task at the other. -/
inductive WaitsFor (permits : Nat) (σ : Workload) : Place → Place → Prop
  /-- All permits of the call are taken, one of them by the other task. -/
  | permit {call : Call} {number i j : Nat} {t t' : BuildTask} (hat : σ.At ⟨number, i⟩ call t)
      (hat' : σ.At ⟨number, j⟩ call t') (hwaits : t.stage = .waiting)
      (hnone : permits ≤ call.permitsTaken) (hholds : t'.stage.holdsPermit = true) :
      WaitsFor permits σ ⟨number, i⟩ ⟨number, j⟩
  /-- The other task has the lock of the device. -/
  | device {place place' : Place} {call : Call} {t : BuildTask} {lock : Nat} (hat : σ.At place call t)
      (hadmitted : t.stage = .admitted) (hnone : t.hasDevice = false)
      (hlock : call.lock? = some lock) (hholds : σ.Holds place' lock) :
      WaitsFor permits σ place place'

end Workload

end HybridCompile
