import HybridCompile.Proofs.Concurrency.Orderly
import HybridCompile.Proofs.Partition.Placement

/-!
# HybridCompile — admission to a device

Which builds of all calls may run at one time, and why no interleaving is stuck: who waits for a
permit waits for one that has it, and who waits for a device waits for one that does not wait at all.
Keys have locks of their own, so calls for different devices have nothing to wait for from each
other.

* `exists_move_or_waitsFor`, `not_move_of_waitsFor` — who can go on, and who waits.
* `Orderly.alive` — some build can go on.
* `Workload.admission_safe` — the whole, in every reachable state.
-/

namespace HybridCompile

namespace Workload

variable {session : Session} {permits : Nat} {σ σ' : Workload} {place place' : Place}
variable {call : Call} {t t' : BuildTask} {v : Standing} {lock : Nat}

/-! ### Who can go on, and who waits -/

theorem Orderly.fits_of_at (h : σ.Orderly session permits) (hat : σ.At place call t) :
    t.Fits call.lock? :=
  h.fits place _ hat.at?_eq

theorem At.exists_move (hat : σ.At place call t)
    (h : ∃ locks t' p, t.Move session permits σ.locks call locks t' p) :
    ∃ σ', σ.Move session permits place σ' := by
  obtain ⟨locks, t', p, h⟩ := h
  exact ⟨_, .mk hat h⟩

/-- The lock of a task's device is free, or somebody has it. -/
theorem Orderly.isFree_or_holds (h : σ.Orderly session permits) (hat : σ.At place call t)
    (hlock : call.lock? = some lock) :
    σ.locks.IsFree lock ∨ ∃ place', σ.Holds place' lock := by
  have hkey := h.lockOf call (List.mem_of_getElem? hat.call_eq)
  rw [hlock] at hkey
  cases hkey with
  | own _ hkey =>
    exact (DeviceLocks.isFree_or_isTaken (h.distinct.lt_length hkey)).imp_right h.heldBy.isTaken_iff.mp

/-- A task that has the device can go on: it `Fits`, so it has a permit too. -/
theorem Orderly.exists_move_of_hasDevice (h : σ.Orderly session permits) (hat : σ.At place call t)
    (hhas : t.hasDevice = true) : ∃ σ', σ.Move session permits place σ' := by
  have hfits := h.fits_of_at hat
  have hholds := hfits.holdsPermit hhas
  refine hat.exists_move (BuildTask.exists_move_of_ready hfits ?_ ?_ fun _ => Or.inr hhas)
  all_goals
    intro hstage
    rw [hstage] at hholds
    cases hholds

/-- A task that is not done goes on, or waits for one that does have what it needs. The cases are
its stage: one that waits takes a permit or waits for those who have them all, and one with a permit
takes the lock or waits for who has it. -/
theorem Orderly.exists_move_or_waitsFor (h : σ.Orderly session permits) (hpermits : 0 < permits)
    (hat : σ.At place call t) (hjoined : t.stage ≠ .joined) :
    (∃ σ', σ.Move session permits place σ') ∨ ∃ place', σ.WaitsFor permits place place' := by
  have hfits := h.fits_of_at hat
  cases hstage : t.stage with
  | waiting =>
    rcases Nat.lt_or_ge call.permitsTaken permits with hpermit | hnone
    · exact Or.inl ⟨_, .mk hat (.grant hstage hpermit)⟩
    · obtain ⟨t', hmem, hholds⟩ := List.countP_pos_iff.mp (Nat.lt_of_lt_of_le hpermits hnone)
      obtain ⟨j, htask⟩ := List.getElem?_of_mem hmem
      exact Or.inr ⟨⟨place.call, j⟩, .permit hat ⟨hat.call_eq, htask⟩ hstage hnone hholds⟩
  | admitted =>
    cases hlock : call.lock? with
    | none =>
      exact Or.inl (hat.exists_move
        (BuildTask.exists_move_of_ready hfits (by simp [hstage]) hjoined fun _ => Or.inl hlock))
    | some lock =>
      cases hhas : t.hasDevice with
      | true => exact Or.inl (h.exists_move_of_hasDevice hat hhas)
      | false =>
        rcases h.isFree_or_holds hat hlock with hfree | ⟨place', hholds⟩
        · exact Or.inl ⟨_, .mk hat (.acquire hstage hhas hlock hfree)⟩
        · exact Or.inr ⟨place', .device hat hstage hhas hlock hholds⟩
  | running | ended =>
    exact Or.inl (hat.exists_move
      (BuildTask.exists_move_of_ready hfits (by simp [hstage]) hjoined (by simp [hstage])))
  | joined => exact absurd hstage hjoined

/-- Some task whose build is not over can go on. -/
def Alive (session : Session) (permits : Nat) (σ : Workload) : Prop :=
  ∃ place v σ', σ.at? place = some v ∧ v.task.stage.isOver = false ∧
    σ.Move session permits place σ'

/-- If some task has a permit, some build can go on: this one, or the one that has the device, which
does not wait. -/
theorem Orderly.alive_of_holdsPermit (h : σ.Orderly session permits) (hpermits : 0 < permits)
    (hat : σ.At place call t) (hholds : t.stage.holdsPermit = true) : σ.Alive session permits := by
  have hover := Stage.isOver_of_holdsPermit hholds
  rcases h.exists_move_or_waitsFor hpermits hat (Stage.ne_joined_of_isOver hover) with
    ⟨σ', hmove⟩ | ⟨place', hwaits⟩
  · exact ⟨place, _, σ', hat.at?_eq, hover, hmove⟩
  · cases hwaits with
    | permit hat₀ _ hwaiting =>
      obtain ⟨-, -, rfl⟩ := Standing.mk.inj (Option.some.inj (hat.at?_eq.symm.trans hat₀.at?_eq))
      rw [hwaiting] at hholds
      cases hholds
    | device _ _ _ _ hholds' =>
      -- who has the device does not wait
      obtain ⟨v, hv, -, hhas⟩ := hholds'
      obtain ⟨call', hat', -, -⟩ := exists_at_of_at? hv
      obtain ⟨σ', hmove⟩ := h.exists_move_of_hasDevice hat' hhas
      exact ⟨place', v, σ', hv, Stage.isOver_of_holdsPermit ((h.fits place' v hv).holdsPermit hhas),
        hmove⟩

/-- No reachable state is stuck: who waits for a permit waits for one that has it, and who waits for
the device waits for one that does not wait at all. -/
theorem Orderly.alive (h : σ.Orderly session permits) (hpermits : 0 < permits)
    (hat : σ.At place call t) (hover : t.stage.isOver = false) : σ.Alive session permits := by
  rcases h.exists_move_or_waitsFor hpermits hat (Stage.ne_joined_of_isOver hover) with
    ⟨σ', hmove⟩ | ⟨place', hwaits⟩
  · exact ⟨place, _, σ', hat.at?_eq, hover, hmove⟩
  · cases hwaits with
    | permit _ hat' _ _ hholds => exact h.alive_of_holdsPermit hpermits hat' hholds
    | device hat₀ hadmitted =>
      refine h.alive_of_holdsPermit hpermits hat₀ ?_
      rw [hadmitted]
      rfl

theorem At.unique {call' : Call} (h : σ.At place call t) (h' : σ.At place call' t') :
    call = call' ∧ t = t' := by
  obtain rfl := Option.some.inj (h.call_eq.symm.trans h'.call_eq)
  exact ⟨rfl, Option.some.inj (h.task_eq.symm.trans h'.task_eq)⟩

/-- A task that waits for another one stays where it is: there is no permit, or the lock is taken,
so that each of the four moves is excluded. -/
theorem Orderly.not_move_of_waitsFor (h : σ.Orderly session permits)
    (hwaits : σ.WaitsFor permits place place') : ¬ σ.Move session permits place σ' := by
  rintro ⟨hat', hmove⟩
  cases hwaits with
  | permit hat _ hwaiting hnone =>
    obtain ⟨rfl, rfl⟩ := hat.unique hat'
    cases hmove with
    | grant _ hpermit => omega
    | acquire hadmitted => exact absurd (hwaiting.symm.trans hadmitted) (fun h => (by cases h))
    | build hstep | leave hstep =>
      rw [hwaiting] at hstep
      cases hstep
  | device hat hadmitted hnone hlock hholds =>
    obtain ⟨rfl, rfl⟩ := hat.unique hat'
    have htaken := h.heldBy.isTaken_iff.mpr ⟨_, hholds⟩
    cases hmove with
    | grant hwaiting => exact absurd (hadmitted.symm.trans hwaiting) (fun h => (by cases h))
    | acquire _ _ hlock' hfree =>
      obtain rfl := Option.some.inj (hlock.symm.trans hlock')
      exact absurd (htaken.symm.trans hfree) (by simp)
    | build _ hdevice =>
      rcases hdevice hadmitted with hnolock | hhas
      · rw [hlock] at hnolock
        cases hnolock
      · exact absurd (hnone.symm.trans hhas) Bool.false_ne_true
    | leave _ _ hhas => exact absurd (hnone.symm.trans hhas) Bool.false_ne_true

/-- Two tasks of which one waits for the other are for one device. They have one lock between them,
which stands in the table for both keys, and `Distinct.key_eq` allows a lock one key. -/
theorem Orderly.key_eq_of_waitsFor (h : σ.Orderly session permits)
    (hwaits : σ.WaitsFor permits place place') {v v' : Standing} (hv : σ.at? place = some v)
    (hv' : σ.at? place' = some v') : v.key = v'.key := by
  cases hwaits with
  | permit hat hat' =>
    obtain rfl := Option.some.inj (hat.at?_eq.symm.trans hv)
    obtain rfl := Option.some.inj (hat'.at?_eq.symm.trans hv')
    rfl
  | @device _ _ call _ lock hat _ _ hlock hholds =>
    obtain rfl := Option.some.inj (hat.at?_eq.symm.trans hv)
    obtain ⟨v₁, hv₁, hlock', -⟩ := hholds
    obtain rfl := Option.some.inj (hv₁.symm.trans hv')
    obtain ⟨call', hat', hkey', hlock''⟩ := exists_at_of_at? hv'
    have hof := h.lockOf call (List.mem_of_getElem? hat.call_eq)
    have hof' := h.lockOf call' (List.mem_of_getElem? hat'.call_eq)
    rw [hlock] at hof
    rw [← hlock'', hlock'] at hof'
    cases hof with
    | own _ hkey =>
      cases hof' with
      | own _ hkey₁ => exact (h.distinct.key_eq hkey hkey₁).trans hkey'.symm

theorem WaitsFor.exists_at? (h : σ.WaitsFor permits place place') :
    (∃ v, σ.at? place = some v) ∧ ∃ v', σ.at? place' = some v' := by
  cases h with
  | permit hat hat' => exact ⟨⟨_, hat.at?_eq⟩, _, hat'.at?_eq⟩
  | device hat _ _ _ hholds =>
    obtain ⟨v, hv, -, -⟩ := hholds
    exact ⟨⟨_, hat.at?_eq⟩, v, hv⟩

/-- A thread-safe backend has no locks, and then calls have nothing to do with each other. -/
theorem Orderly.call_eq_of_waitsFor (h : σ.Orderly session permits)
    (hsafe : session.backend.threadSafe = true) (hwaits : σ.WaitsFor permits place place') :
    place.call = place'.call := by
  cases hwaits with
  | permit => rfl
  | device hat _ _ hlock =>
    have hof := h.lockOf _ (List.mem_of_getElem? hat.call_eq)
    rw [hlock] at hof
    cases hof with
    | own hserial => exact absurd (hsafe.symm.trans hserial) (by decide)

/-- No two builds run on one device at one time if the backend is not thread-safe. Whoever runs has
the lock that the table has for the device, and by `HeldBy.place_eq` only one task has it. -/
theorem Orderly.place_eq_of_isRunning (h : σ.Orderly session permits)
    (hserial : session.backend.threadSafe = false) {v v' : Standing} (hv : σ.at? place = some v)
    (hv' : σ.at? place' = some v') (hkey : v.key = v'.key)
    (hruns : v.task.stage.isRunning = true) (hruns' : v'.task.stage.isRunning = true) :
    place = place' := by
  -- a build that runs has the lock that the table has for its device
  have hholds : ∀ {place : Place} {v : Standing}, σ.at? place = some v →
      v.task.stage.isRunning = true →
      ∃ lock, σ.locks.lock? v.key = some lock ∧ σ.Holds place lock := by
    intro place v hv hruns
    obtain ⟨call, hat, hkey, hlock⟩ := exists_at_of_at? hv
    have hof := h.lockOf call (List.mem_of_getElem? hat.call_eq)
    rw [← hkey, ← hlock] at hof
    cases hsome : v.lock? with
    | none =>
      rw [hsome] at hof
      cases hof with
      | shared hsafe => exact absurd (hsafe.symm.trans hserial) (by decide)
    | some lock =>
      rw [hsome] at hof
      cases hof with
      | own _ htable =>
        have hhas := ((h.fits place v hv).hasDevice hruns).resolve_left (by simp [hsome])
        exact ⟨lock, htable, v, hv, hsome, hhas⟩
  obtain ⟨lock, htable, hhave⟩ := hholds hv hruns
  obtain ⟨lock', htable', hhave'⟩ := hholds hv' hruns'
  obtain rfl : lock = lock' := Option.some.inj (htable.symm.trans (hkey ▸ htable'))
  exact h.heldBy.place_eq hhave hhave'

/-! ### Every interleaving -/

/-- Admission to a device is safe, and cannot be stuck. Whatever calls come in and however their tasks
take turns: a call never has more tasks past its permits than the configuration sets; if the backend
is not thread-safe, two builds that run at one time are for different devices; a task that is not
done goes on or waits for another one, never both, and the two are for the same device, and of the
same call if the backend is thread-safe; and as long as some build is not over, some task whose build
is not over goes on. -/
theorem admission_safe (session : Session) (machine : Nat) {σ : Workload}
    (h : σ.Reachable session (session.config.permits machine)) :
    (∀ call ∈ σ.calls, call.permitsTaken ≤ session.config.permits machine ∧
      ∀ n, session.config.maxParallelBuilds = some n → 1 ≤ n.toNat →
        call.permitsTaken ≤ n.toNat) ∧
    (session.backend.threadSafe = false → ∀ place place' v v', σ.at? place = some v →
      σ.at? place' = some v' → v.key = v'.key → v.task.stage.isRunning = true →
      v'.task.stage.isRunning = true → place = place') ∧
    (∀ place v, σ.at? place = some v → v.task.stage ≠ .joined →
      (∃ σ', σ.Move session (session.config.permits machine) place σ') ∨
        ∃ place', σ.WaitsFor (session.config.permits machine) place place') ∧
    (∀ place place', σ.WaitsFor (session.config.permits machine) place place' →
      (¬ ∃ σ', σ.Move session (session.config.permits machine) place σ') ∧
        ∃ v v', σ.at? place = some v ∧ σ.at? place' = some v' ∧ v.key = v'.key ∧
          (session.backend.threadSafe = true → place.call = place'.call)) ∧
    ((∃ place v, σ.at? place = some v ∧ v.task.stage.isOver = false) →
      σ.Alive session (session.config.permits machine)) := by
  have hpermits := session.config.permits_pos machine
  have horderly := h.orderly
  refine ⟨fun call hcall => ⟨horderly.permits_le call hcall, fun n hn hpos => ?_⟩,
    fun hserial place place' v v' hv hv' hkey => horderly.place_eq_of_isRunning hserial hv hv' hkey,
    fun place v hv hjoined => ?_, fun place place' hwaits => ⟨?_, ?_⟩, ?_⟩
  · rw [← Config.permits_eq hn hpos machine]
    exact horderly.permits_le call hcall
  · obtain ⟨call, hat, -, -⟩ := exists_at_of_at? hv
    exact horderly.exists_move_or_waitsFor hpermits hat hjoined
  · rintro ⟨σ', hmove⟩
    exact horderly.not_move_of_waitsFor hwaits hmove
  · obtain ⟨⟨v, hv⟩, v', hv'⟩ := hwaits.exists_at?
    exact ⟨v, v', hv, hv', horderly.key_eq_of_waitsFor hwaits hv hv',
      fun hsafe => horderly.call_eq_of_waitsFor hsafe hwaits⟩
  · rintro ⟨place, v, hv, hover⟩
    obtain ⟨call, hat, -, -⟩ := exists_at_of_at? hv
    exact horderly.alive hpermits hat hover

/-! ## An instance

Two calls for one device, and a backend that is not thread-safe. A task of the first one has the
device by now, and a task of the second one waits for it. -/

/-- A session with one permit for each call, and a backend that is not thread-safe. -/
def oneByOne : Session :=
  ⟨SupportTable.acceptAll.toOracle, (ReferenceBackend.mk .empty false 0 0).toBackend, ⟨some 1, none⟩⟩

/-- A state with two calls is reached; the task of the second waits for that of the first, and the
whole is not stuck. -/
theorem admission_safe_two_calls :
    ∃ σ : Workload, σ.Reachable oneByOne (oneByOne.config.permits 8) ∧ σ.calls.length = 2 ∧
      (∀ call ∈ σ.calls, call.permitsTaken ≤ 1) ∧ σ.WaitsFor 1 ⟨1, 0⟩ ⟨0, 0⟩ ∧
      σ.Alive oneByOne (oneByOne.config.permits 8) := by
  have hplan : oneByOne.plan skippingValid skippingSettings = .ok skippingPlan := by decide +kernel
  have hfirst : Workload.Reachable oneByOne (oneByOne.config.permits 8) _ :=
    .tail .refl (.call empty hplan false)
  have hsecond := hfirst.tail (.call _ hplan false)
  have hgrant := hsecond.tail (.move ⟨0, 0⟩ (.mk ⟨rfl, rfl⟩ (.grant rfl (by decide))))
  have hacquire := hgrant.tail (.move ⟨0, 0⟩ (.mk ⟨rfl, rfl⟩ (.acquire rfl rfl rfl (by decide))))
  have hreach := hacquire.tail (.move ⟨1, 0⟩ (.mk ⟨rfl, rfl⟩ (.grant rfl (by decide))))
  obtain ⟨hpermits, -, -, -, halive⟩ := admission_safe oneByOne 8 hreach
  refine ⟨_, hreach, rfl, fun call hcall => (hpermits call hcall).1, ?_, ?_⟩
  · exact .device ⟨rfl, rfl⟩ rfl rfl rfl ⟨_, rfl, rfl, rfl⟩
  · exact halive ⟨⟨1, 0⟩, _, rfl, rfl⟩

end Workload

end HybridCompile