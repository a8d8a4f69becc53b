import HybridCompile.Proofs.Concurrency.Locks

/-!
# HybridCompile — what calls side by side keep

A task has the lock of its device only together with a permit of its call, and always while it
builds. That, and who has which lock, is kept by every step of every call.

* `BuildTask.Fits`, `LockEffect` — a task by itself, and what its moves do to locks.
* `Workload.at?_moved`, `at?_append`, `at?_outside` — a step changes what is found at one place.
* `Workload.Orderly`, `Reachable.orderly` — the invariant, in every reachable state.
-/

namespace HybridCompile

/-! ## Tasks -/

/-- What a task has by its stage: the lock only together with a permit, and always while it builds. -/
structure BuildTask.Fits (lock? : Option Nat) (t : BuildTask) : Prop where
  holdsPermit : t.hasDevice = true → t.stage.holdsPermit = true
  hasLock : t.hasDevice = true → ∃ lock, lock? = some lock
  hasDevice : t.stage.isRunning = true → lock? = none ∨ t.hasDevice = true

section

variable {session : Session} {permits : Nat} {locks locks' : DeviceLocks} {call : Call}
variable {t t' : BuildTask} {p : Progress}

/-- A task that has its permit after a step had it before, and was building or about to build. No
step of a build takes a permit; only `BuildTask.Move.grant` does. -/
theorem TaskStep.holdsPermit {g : ValidGraph} {s : Settings} {r : Region} {stage stage' : Stage}
    {p p' : Progress} (h : TaskStep session g s r stage p stage' p')
    (hholds : stage'.holdsPermit = true) :
    stage.holdsPermit = true ∧ (stage.isRunning = true ∨ stage = .admitted) := by
  cases h with
  | begin => exact ⟨rfl, Or.inr rfl⟩
  | work => exact ⟨rfl, Or.inl rfl⟩
  | finish => cases hholds
  | join => cases hholds

theorem Stage.holdsPermit_of_isRunning {stage : Stage} (h : stage.isRunning = true) :
    stage.holdsPermit = true := by
  cases stage <;> first | rfl | cases h

theorem Stage.isOver_of_holdsPermit {stage : Stage} (h : stage.holdsPermit = true) :
    stage.isOver = false := by
  cases stage <;> first | rfl | cases h

theorem Stage.ne_joined_of_isOver {stage : Stage} (h : stage.isOver = false) :
    stage ≠ .joined := by
  rintro rfl
  cases h

/-- What a move does to the lock of its call: nothing, or the task takes it, or gives it back. Of
the table of locks the invariant needs no more than this, so `BuildTask.Move` is looked at once, in
`BuildTask.Move.lockEffect`. -/
def LockEffect (lock? : Option Nat) (locks : DeviceLocks) (t : BuildTask) (locks' : DeviceLocks)
    (t' : BuildTask) : Prop :=
  (locks' = locks ∧ t'.hasDevice = t.hasDevice) ∨
    ∃ lock, lock? = some lock ∧
      ((locks.IsFree lock ∧ locks' = locks.take lock ∧ t'.hasDevice = true) ∨
        (t.hasDevice = true ∧ locks' = locks.release lock ∧ t'.hasDevice = false))

theorem LockEffect.distinct {lock? : Option Nat} (h : LockEffect lock? locks t locks' t')
    (hlocks : locks.Distinct) : locks'.Distinct := by
  rcases h with ⟨rfl, -⟩ | ⟨lock, -, ⟨-, rfl, -⟩ | ⟨-, rfl, -⟩⟩
  · exact hlocks
  · exact hlocks.take
  · exact hlocks.release

theorem LockEffect.lock?_eq {lock? : Option Nat} (h : LockEffect lock? locks t locks' t')
    (key : DeviceKey) : locks'.lock? key = locks.lock? key := by
  rcases h with ⟨rfl, -⟩ | ⟨lock, -, ⟨-, rfl, -⟩ | ⟨-, rfl, -⟩⟩ <;> rfl

theorem BuildTask.Move.lockEffect (h : t.Move session permits locks call locks' t' p) :
    LockEffect call.lock? locks t locks' t' := by
  cases h with
  | grant => exact Or.inl ⟨rfl, rfl⟩
  | acquire _ _ hlock hfree => exact Or.inr ⟨_, hlock, Or.inl ⟨hfree, rfl, rfl⟩⟩
  | build => exact Or.inl ⟨rfl, rfl⟩
  | leave _ hlock hhas => exact Or.inr ⟨_, hlock, Or.inr ⟨hhas, rfl, rfl⟩⟩

/-- A move keeps `BuildTask.Fits`. What runs after a step has run before it, or has just been let in
with the lock; and what gives the permit back gives the lock back with it. -/
theorem BuildTask.Move.fits (h : t.Move session permits locks call locks' t' p)
    (hfits : t.Fits call.lock?) : t'.Fits call.lock? := by
  cases h with
  | grant hwaits =>
    refine ⟨fun hhas => ?_, hfits.hasLock, fun hruns => (by cases hruns)⟩
    have hholds := hfits.holdsPermit hhas
    rw [hwaits] at hholds
    cases hholds
  | acquire hadmitted _ hlock =>
    refine ⟨fun _ => ?_, fun _ => ⟨_, hlock⟩, fun _ => Or.inr rfl⟩
    show t.stage.holdsPermit = true
    rw [hadmitted]
    rfl
  | build hstep hdevice hkeeps =>
    refine ⟨fun hhas => hkeeps.resolve_right (by simpa using hhas), hfits.hasLock, fun hruns => ?_⟩
    -- what runs after the step has run before it, or has just been let in
    rcases (hstep.holdsPermit (Stage.holdsPermit_of_isRunning hruns)).2 with hran | hadmitted
    · exact hfits.hasDevice hran
    · exact hdevice hadmitted
  | leave _ _ _ hends =>
    refine ⟨fun h => (by cases h), fun h => (by cases h), fun hruns => ?_⟩
    have hholds := Stage.holdsPermit_of_isRunning hruns
    rw [hends] at hholds
    cases hholds

/-- A permit is taken only while there is one. -/
theorem BuildTask.Move.permit (h : t.Move session permits locks call locks' t' p)
    (hholds : t'.stage.holdsPermit = true) :
    t.stage.holdsPermit = true ∨ call.permitsTaken < permits := by
  cases h with
  | grant _ hpermit => exact Or.inr hpermit
  | acquire => exact Or.inl hholds
  | build hstep => exact Or.inl (hstep.holdsPermit hholds).1
  | leave _ _ _ hends =>
    rw [hends] at hholds
    cases hholds

/-- A move takes no more permits than there are: the task that moves either had one before and is in
the count already, or there was one left. -/
theorem Call.permitsTaken_moved {task : Nat} (htask : call.tasks[task]? = some t)
    (hpermits : call.permitsTaken ≤ permits)
    (hholds : t'.stage.holdsPermit = true → t.stage.holdsPermit = true ∨ call.permitsTaken < permits) :
    (call.moved task t' p).permitsTaken ≤ permits := by
  obtain ⟨hlt, rfl⟩ := List.getElem?_eq_some_iff.mp htask
  have hcount := List.countP_set (p := fun t : BuildTask => t.stage.holdsPermit) (a := t') hlt
  have hmoved : (call.moved task t' p).permitsTaken =
      (call.tasks.set task t').countP fun t => t.stage.holdsPermit := rfl
  rw [hmoved, hcount]
  unfold permitsTaken at hpermits hholds
  cases hafter : t'.stage.holdsPermit with
  | false =>
    simp only [Bool.false_eq_true, if_false]
    omega
  | true =>
    rcases hholds hafter with hbefore | hless
    · -- the count has the task in it already
      have hpos : 0 < call.tasks.countP fun t => t.stage.holdsPermit :=
        List.countP_pos_iff.mpr ⟨_, List.getElem_mem hlt, hbefore⟩
      simp only [hbefore, if_true]
      omega
    · simp only [if_true]
      omega

/-- Tasks begin with nothing. -/
theorem Call.mem_start_tasks {g : ValidGraph} {s : Settings} {plan : Plan}
    {lock? : Option Nat} {signal : Bool} (h : t ∈ (Call.start g s plan lock? signal).tasks) :
    t.stage = .waiting ∧ t.hasDevice = false := by
  obtain ⟨r, -, rfl⟩ := List.mem_map.mp h
  exact ⟨rfl, rfl⟩

/-- A task with a permit, and with the lock if it needs one, can go on: `exists_taskStep` gives the
step, which is a `build` or a `leave`. -/
theorem BuildTask.exists_move_of_ready (hfits : t.Fits call.lock?) (hwaiting : t.stage ≠ .waiting)
    (hjoined : t.stage ≠ .joined)
    (hdevice : t.stage = .admitted → call.lock? = none ∨ t.hasDevice = true) :
    ∃ locks' t' p, t.Move session permits locks call locks' t' p := by
  obtain ⟨stage, p, hstep⟩ :=
    exists_taskStep session call.graph call.settings t.region call.progress hwaiting hjoined
  cases hends : stage.holdsPermit with
  | true => exact ⟨_, _, _, .build hstep hdevice (Or.inl hends)⟩
  | false =>
    cases hhas : t.hasDevice with
    | false => exact ⟨_, _, _, .build hstep hdevice (Or.inr hhas)⟩
    | true =>
      obtain ⟨lock, hlock⟩ := hfits.hasLock hhas
      exact ⟨_, _, _, .leave hstep hlock hhas hends⟩

end

/-! ## The calls together -/

namespace Workload

variable {session : Session} {permits : Nat} {σ σ' : Workload} {place place' : Place}
variable {call : Call} {t t' : BuildTask} {v : Standing} {lock : Nat}

theorem At.at?_eq (h : σ.At place call t) : σ.at? place = some ⟨call.key, call.lock?, t⟩ := by
  simp [at?, h.call_eq, h.task_eq]

theorem exists_at_of_at? (h : σ.at? place = some v) :
    ∃ call, σ.At place call v.task ∧ v.key = call.key ∧ v.lock? = call.lock? := by
  simp only [at?, Option.bind_eq_bind, Option.bind_eq_some_iff, Option.pure_def,
    Option.some.injEq] at h
  obtain ⟨call, hcall, t, htask, rfl⟩ := h
  exact ⟨call, ⟨hcall, htask⟩, rfl, rfl⟩

/-- A move changes what is found at one place, and there the task alone; its call keeps its device
and its lock. -/
theorem at?_moved (hat : σ.At place call t) (locks : DeviceLocks) (t' : BuildTask) (p : Progress)
    (place₀ : Place) :
    at? ⟨locks, σ.calls.set place.call (call.moved place.task t' p)⟩ place₀ =
      if place₀ = place then some ⟨call.key, call.lock?, t'⟩ else σ.at? place₀ := by
  obtain ⟨number, task⟩ := place
  obtain ⟨number₀, task₀⟩ := place₀
  obtain ⟨hlt, rfl⟩ := List.getElem?_eq_some_iff.mp hat.call_eq
  have hlt' := (List.getElem?_eq_some_iff.mp hat.task_eq).1
  dsimp only at hlt hlt'
  by_cases hnumber : number₀ = number
  · subst hnumber
    by_cases htask : task₀ = task
    · subst htask
      simp [at?, Call.moved, Call.key, hlt, hlt']
    · simp [at?, Call.moved, Call.key, hlt, htask, Ne.symm htask]
  · simp [at?, hnumber, Ne.symm hnumber]

/-- A call that comes in leaves the others where they are. -/
theorem at?_append (locks : DeviceLocks) (c : Call) (h : at? ⟨locks, σ.calls ++ [c]⟩ place = some v) :
    σ.at? place = some v ∨ ∃ t ∈ c.tasks, v = ⟨c.key, c.lock?, t⟩ := by
  obtain ⟨call, hat, hkey, hlock⟩ := exists_at_of_at? h
  have hcall := hat.call_eq
  rw [List.getElem?_append] at hcall
  split at hcall
  · exact Or.inl ((At.mk hcall hat.task_eq).at?_eq.trans (by rw [← hkey, ← hlock]))
  · obtain rfl : c = call := List.mem_singleton.mp (List.mem_of_getElem? hcall) |>.symm
    exact Or.inr ⟨v.task, List.mem_of_getElem? hat.task_eq, by rw [← hkey, ← hlock]⟩

theorem At.append (h : σ.At place call t) (locks : DeviceLocks) (c : Call) :
    At ⟨locks, σ.calls ++ [c]⟩ place call t :=
  ⟨(List.getElem?_append_left (List.getElem?_eq_some_iff.mp h.call_eq).1).trans h.call_eq, h.task_eq⟩

/-- What others do to the signal and the calibrator of a call does not move its tasks. -/
theorem at?_outside {number : Nat} (hcall : σ.calls[number]? = some call) (p : Progress)
    (place : Place) :
    at? ⟨σ.locks, σ.calls.set number { call with progress := p }⟩ place = σ.at? place := by
  obtain ⟨hlt, rfl⟩ := List.getElem?_eq_some_iff.mp hcall
  by_cases hnumber : place.call = number
  · subst hnumber
    simp [at?, Call.key, hlt]
  · simp [at?, Ne.symm hnumber]

/-! ### The invariant -/

/-- The lock of a call is the one that the table has for its device. -/
inductive LockOf (session : Session) (locks : DeviceLocks) (key : DeviceKey) : Option Nat → Prop
  /-- A backend that is thread-safe needs none. -/
  | shared (hsafe : session.backend.threadSafe = true) : LockOf session locks key none
  | own {lock : Nat} (hserial : session.backend.threadSafe = false)
      (hlock : locks.lock? key = some lock) : LockOf session locks key (some lock)

/-- What every interleaving keeps: keys have locks of their own, a lock is taken as long as one task
has it, a call has the lock of its device and no more tasks with permits than there are, and each
task `Fits`. -/
structure Orderly (session : Session) (permits : Nat) (σ : Workload) : Prop where
  distinct : σ.locks.Distinct
  heldBy : σ.locks.HeldBy σ.Holds
  lockOf : ∀ call ∈ σ.calls, LockOf session σ.locks call.key call.lock?
  permits_le : ∀ call ∈ σ.calls, call.permitsTaken ≤ permits
  fits : ∀ place v, σ.at? place = some v → v.task.Fits v.lock?

theorem holds_congr {σ' : Workload} (h : ∀ place, σ'.at? place = σ.at? place) (place : Place)
    (lock : Nat) : σ'.Holds place lock ↔ σ.Holds place lock := by
  unfold Holds
  rw [h]

theorem orderly_empty : Orderly session permits empty where
  distinct := ⟨fun h => (by cases h), fun h => (by cases h)⟩
  heldBy := ⟨⟨fun h => (by cases h), fun ⟨_, _, h, _⟩ => (by cases h)⟩, fun ⟨_, h, _⟩ => (by cases h)⟩
  lockOf call h := by cases h
  permits_le call h := by cases h
  fits place v h := by cases h

/-- What others do to the signal or the calibrator of a call keeps the invariant, as no task moves.
-/
theorem Orderly.outside {number : Nat} (h : σ.Orderly session permits)
    (hcall : σ.calls[number]? = some call) (p : Progress) :
    Orderly session permits ⟨σ.locks, σ.calls.set number { call with progress := p }⟩ where
  distinct := h.distinct
  heldBy := h.heldBy.congr (holds_congr (at?_outside hcall p))
  lockOf c hc := by
    rcases List.mem_or_eq_of_mem_set hc with hmem | rfl
    · exact h.lockOf c hmem
    · exact h.lockOf call (List.mem_of_getElem? hcall)
  permits_le c hc := by
    rcases List.mem_or_eq_of_mem_set hc with hmem | rfl
    · exact h.permits_le c hmem
    · exact h.permits_le call (List.mem_of_getElem? hcall)
  fits place v hv := h.fits place v ((at?_outside hcall p place).symm.trans hv)

theorem LockOf.mono {locks locks' : DeviceLocks} {key : DeviceKey} {lock? : Option Nat}
    (h : LockOf session locks key lock?)
    (hlocks : ∀ {lock}, locks.lock? key = some lock → locks'.lock? key = some lock) :
    LockOf session locks' key lock? := by
  cases h with
  | shared hsafe => exact .shared hsafe
  | own hserial hlock => exact .own hserial (hlocks hlock)

/-- What a call brings with it: the lock of its device, and tasks that have nothing yet. -/
theorem exists_receive_eq (session : Session) (σ : Workload) (g : ValidGraph) (s : Settings)
    (plan : Plan) (signal : Bool) :
    ∃ locks lock?, σ.receive session g s plan signal =
        ⟨locks, σ.calls ++ [.start g s plan lock? signal]⟩ ∧
      σ.locks.Extends locks ∧ LockOf session locks s.device.key lock? := by
  cases hsafe : session.backend.threadSafe with
  | true => exact ⟨σ.locks, none, by rw [receive, if_pos hsafe], .rfl _, .shared hsafe⟩
  | false =>
    refine ⟨(σ.locks.entry s.device.key).1, some (σ.locks.entry s.device.key).2, ?_,
      σ.locks.extends_entry _, .own hsafe ?_⟩
    · rw [receive, if_neg (Bool.eq_false_iff.mp hsafe)]
    · rw [DeviceLocks.lock?_entry, if_pos rfl]

/-- A call that comes in keeps the invariant: the table `Extends`, the old calls keep their locks by
`LockOf.mono`, and the new tasks have nothing. -/
theorem Orderly.receive (h : σ.Orderly session permits) (g : ValidGraph) (s : Settings)
    (plan : Plan) (signal : Bool) : (σ.receive session g s plan signal).Orderly session permits := by
  obtain ⟨locks, lock?, heq, hlocks, hlock⟩ := exists_receive_eq session σ g s plan signal
  rw [heq]
  have hholds : ∀ place lock,
      Holds ⟨locks, σ.calls ++ [.start g s plan lock? signal]⟩ place lock ↔ σ.Holds place lock := by
    intro place lock
    constructor
    · rintro ⟨v, hv, hlock, hhas⟩
      rcases at?_append locks _ hv with hold | ⟨t, ht, rfl⟩
      · exact ⟨v, hold, hlock, hhas⟩
      · have hnone := (Call.mem_start_tasks ht).2
        rw [hnone] at hhas
        cases hhas
    · rintro ⟨v, hv, hlock, hhas⟩
      obtain ⟨call, hat, hkey, hlock'⟩ := exists_at_of_at? hv
      exact ⟨_, (hat.append locks _).at?_eq, hlock'.symm.trans hlock, hhas⟩
  refine ⟨hlocks.distinct h.distinct, ?_, ?_, ?_, ?_⟩
  · have hheld := h.heldBy.congr hholds
    exact ⟨hlocks.isTaken_iff.trans hheld.isTaken_iff, hheld.place_eq⟩
  · refine List.forall_mem_append.mpr ⟨fun call hcall => (h.lockOf call hcall).mono hlocks.lock?_eq, ?_⟩
    rw [List.forall_mem_singleton]
    exact hlock
  · refine List.forall_mem_append.mpr ⟨h.permits_le, List.forall_mem_singleton.mpr ?_⟩
    refine (List.countP_eq_zero.mpr fun t ht => ?_).trans_le (Nat.zero_le permits)
    rw [(Call.mem_start_tasks ht).1]
    decide
  · intro place v hv
    rcases at?_append locks _ hv with hold | ⟨t, ht, rfl⟩
    · exact h.fits place v hold
    · obtain ⟨hwaits, hnone⟩ := Call.mem_start_tasks ht
      refine ⟨fun hhas => ?_, fun hhas => ?_, fun hruns => ?_⟩
      · exact absurd (hnone.symm.trans hhas) Bool.false_ne_true
      · exact absurd (hnone.symm.trans hhas) Bool.false_ne_true
      · rw [hwaits] at hruns
        cases hruns

/-- Who has which lock after a move. The cases are the three effects: a lock that is taken was free,
so nobody else has it, and one that is given back was had by this task alone. -/
theorem heldBy_moved (h : σ.Orderly session permits) (hat : σ.At place call t)
    {locks : DeviceLocks} (heffect : LockEffect call.lock? σ.locks t locks t') (p : Progress) :
    locks.HeldBy (Holds ⟨locks, σ.calls.set place.call (call.moved place.task t' p)⟩) := by
  have hself : ∀ lock, σ.Holds place lock ↔ call.lock? = some lock ∧ t.hasDevice = true := by
    intro lock
    constructor
    · rintro ⟨v, hv, hlock, hhas⟩
      obtain rfl := Option.some.inj (hat.at?_eq.symm.trans hv)
      exact ⟨hlock, hhas⟩
    · rintro ⟨hlock, hhas⟩
      exact ⟨_, hat.at?_eq, hlock, hhas⟩
  have hmoved : ∀ place₀ lock₀,
      Holds ⟨locks, σ.calls.set place.call (call.moved place.task t' p)⟩ place₀ lock₀ ↔
        if place₀ = place then call.lock? = some lock₀ ∧ t'.hasDevice = true
        else σ.Holds place₀ lock₀ := by
    intro place₀ lock₀
    unfold Holds
    rw [at?_moved hat]
    split
    · constructor
      · rintro ⟨v, hv, hlock⟩
        obtain rfl := Option.some.inj hv
        exact hlock
      · exact fun hlock => ⟨_, rfl, hlock⟩
    · exact Iff.rfl
  rcases heffect with ⟨rfl, hsame⟩ | ⟨lock, hlock, ⟨hfree, rfl, hhas⟩ | ⟨hhas, rfl, hnone⟩⟩
  · refine h.heldBy.congr fun place₀ lock₀ => (hmoved place₀ lock₀).trans ?_
    split
    · next heq => rw [heq, hself, hsame]
    · exact Iff.rfl
  · refine (h.heldBy.take place hfree).congr fun place₀ lock₀ => (hmoved place₀ lock₀).trans ?_
    split
    · next heq =>
      subst heq
      rw [hself, hlock, Option.some.injEq, hhas]
      tauto
    · next hne => tauto
  · have hown : ∀ lock₀, σ.Holds place lock₀ ↔ lock₀ = lock := fun lock₀ => by
      rw [hself, hlock, Option.some.injEq, and_iff_left hhas, eq_comm]
    refine (h.heldBy.release hown).congr fun place₀ lock₀ => (hmoved place₀ lock₀).trans ?_
    split
    · next heq =>
      rw [hnone]
      exact ⟨fun h => (by cases h.2), fun h => absurd heq h.2⟩
    · next hne => exact (and_iff_left hne).symm

/-- A move keeps the invariant; each field is a lemma on `LockEffect` or on the task that moves. -/
theorem Orderly.move (h : σ.Orderly session permits) (hmove : σ.Move session permits place σ') :
    σ'.Orderly session permits := by
  obtain ⟨hat, htask⟩ := hmove
  rename_i call t t' locks p
  have hcall : call ∈ σ.calls := List.mem_of_getElem? hat.call_eq
  have heffect := htask.lockEffect
  refine ⟨heffect.distinct h.distinct, heldBy_moved h hat heffect p, ?_, ?_, ?_⟩
  · intro c hc
    have hold : LockOf session σ.locks c.key c.lock? := by
      rcases List.mem_or_eq_of_mem_set hc with hmem | rfl
      · exact h.lockOf c hmem
      · exact h.lockOf call hcall
    exact hold.mono fun hlock => (heffect.lock?_eq _).trans hlock
  · intro c hc
    rcases List.mem_or_eq_of_mem_set hc with hmem | rfl
    · exact h.permits_le c hmem
    · exact Call.permitsTaken_moved hat.task_eq (h.permits_le call hcall) htask.permit
  · intro place₀ v hv
    rw [at?_moved hat] at hv
    split at hv
    · obtain rfl := Option.some.inj hv
      exact htask.fits (h.fits place _ hat.at?_eq)
    · exact h.fits place₀ v hv

theorem Orderly.step (h : σ.Orderly session permits) (hstep : Step session permits σ σ') :
    σ'.Orderly session permits := by
  cases hstep with
  | call _ signal => exact h.receive _ _ _ signal
  | move place hmove => exact h.move hmove
  | outside hcall signal calibrator => exact h.outside hcall _

/-- Every reachable state is orderly. Induction on the steps, from the workload without calls. -/
theorem Reachable.orderly (h : σ.Reachable session permits) : σ.Orderly session permits := by
  induction h with
  | refl => exact orderly_empty
  | tail _ hstep ih => exact ih.step hstep

end Workload

end HybridCompile
