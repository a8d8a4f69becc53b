import HybridCompile.Proofs.Concurrency.Workload

/-!
# HybridCompile — the locks of devices

The table of locks grows with the keys that are asked for, and no key loses its lock or comes to
share it. A lock is taken exactly as long as one task holds it.

* `lock?_entry`, `isTaken_entry`, `isTaken_take`, `isTaken_release` — what each operation changes.
* `Distinct`, `Extends` — the table; `HeldBy` — who has which lock.
-/

namespace HybridCompile

namespace DeviceLocks

variable {locks : DeviceLocks} {key key' : DeviceKey} {lock lock' : Nat}

/-- To ask for a lock puts it into the table, and changes the lock of no other key. By cases on
whether the key is in the table already. -/
theorem lock?_entry (locks : DeviceLocks) (key key' : DeviceKey) :
    (locks.entry key).1.lock? key' =
      if key' = key then some (locks.entry key).2 else locks.lock? key' := by
  cases hfound : locks.lock? key with
  | some lock =>
    rw [entry_of_some hfound]
    split
    · next heq => rw [heq, hfound]
    · rfl
  | none =>
    rw [entry_of_none hfound]
    show List.lookup key' ((key, locks.taken.length) :: locks.table) = _
    rw [List.lookup_cons]
    by_cases heq : key' = key
    · rw [if_pos heq, heq, beq_self_eq_true]
    · rw [if_neg heq, beq_false_of_ne heq]
      rfl

/-- A lock that was not there before is free. -/
theorem isTaken_entry : (locks.entry key).1.IsTaken lock ↔ locks.IsTaken lock := by
  cases hfound : locks.lock? key with
  | some lock => rw [entry_of_some hfound]
  | none =>
    rw [entry_of_none hfound]
    show (locks.taken ++ [false])[lock]? = some true ↔ locks.taken[lock]? = some true
    rw [List.getElem?_append]
    split
    · exact Iff.rfl
    · next hge =>
      have hnone : locks.taken[lock]? = none := List.getElem?_eq_none (Nat.le_of_not_lt hge)
      have hfalse : [false][lock - locks.taken.length]? ≠ some true := by
        cases lock - locks.taken.length <;> simp
      simp [hnone, hfalse]

theorem isTaken_take (hfree : locks.IsFree lock) :
    (locks.take lock).IsTaken lock' ↔ locks.IsTaken lock' ∨ lock' = lock := by
  have hlt : lock < locks.taken.length := (List.getElem?_eq_some_iff.mp hfree).1
  show (locks.taken.set lock true)[lock']? = some true ↔ locks.taken[lock']? = some true ∨ _
  by_cases heq : lock' = lock
  · rw [heq, List.getElem?_set_self hlt]
    exact ⟨fun _ => Or.inr rfl, fun _ => rfl⟩
  · rw [List.getElem?_set_ne (Ne.symm heq)]
    exact ⟨Or.inl, fun h => h.resolve_right heq⟩

theorem isTaken_release :
    (locks.release lock).IsTaken lock' ↔ locks.IsTaken lock' ∧ lock' ≠ lock := by
  show (locks.taken.set lock false)[lock']? = some true ↔ locks.taken[lock']? = some true ∧ _
  by_cases heq : lock' = lock
  · rw [heq, List.getElem?_set]
    by_cases hlt : lock < locks.taken.length <;> simp [hlt]
  · rw [List.getElem?_set_ne (Ne.symm heq)]
    exact ⟨fun h => ⟨h, heq⟩, fun h => h.1⟩

/-- A lock that is there is free or taken. -/
theorem isFree_or_isTaken (hlt : lock < locks.taken.length) :
    locks.IsFree lock ∨ locks.IsTaken lock := by
  unfold IsFree IsTaken
  rw [List.getElem?_eq_getElem hlt]
  cases locks.taken[lock] <;> simp

/-- Every key of the table has a lock of its own, which is there. -/
structure Distinct (locks : DeviceLocks) : Prop where
  key_eq : ∀ {key key' lock}, locks.lock? key = some lock → locks.lock? key' = some lock → key = key'
  lt_length : ∀ {key lock}, locks.lock? key = some lock → lock < locks.taken.length

/-- A table with more keys, whose new locks are free. -/
structure Extends (locks locks' : DeviceLocks) : Prop where
  distinct : locks.Distinct → locks'.Distinct
  isTaken_iff : ∀ {lock}, locks'.IsTaken lock ↔ locks.IsTaken lock
  lock?_eq : ∀ {key lock}, locks.lock? key = some lock → locks'.lock? key = some lock

/-- A lock is taken as long as somebody has it, and only one at a time does. -/
structure HeldBy (locks : DeviceLocks) (holds : Place → Nat → Prop) : Prop where
  isTaken_iff : ∀ {lock}, locks.IsTaken lock ↔ ∃ place, holds place lock
  place_eq : ∀ {place place' lock}, holds place lock → holds place' lock → place = place'

section

variable {locks : DeviceLocks} {holds : Place → Nat → Prop} {place : Place} {lock : Nat}

/-- To ask for a lock keeps keys and locks apart. A new lock has the number of all that are there,
which no key has. -/
theorem Distinct.entry (h : locks.Distinct) (key : DeviceKey) : (locks.entry key).1.Distinct := by
  cases hfound : locks.lock? key with
  | some lock => rwa [entry_of_some hfound]
  | none =>
    have hlock : ∀ {key' lock}, (locks.entry key).1.lock? key' = some lock →
        (key' = key ∧ lock = locks.taken.length) ∨
          (locks.lock? key' = some lock ∧ lock < locks.taken.length) := by
      intro key' lock hkey'
      rw [lock?_entry, entry_of_none hfound] at hkey'
      split at hkey'
      · next heq => exact Or.inl ⟨heq, (Option.some.inj hkey').symm⟩
      · exact Or.inr ⟨hkey', h.lt_length hkey'⟩
    have hlength : (locks.entry key).1.taken.length = locks.taken.length + 1 := by
      rw [entry_of_none hfound, List.length_append]
      rfl
    refine ⟨fun hkey hkey' => ?_, fun hkey => ?_⟩
    · rcases hlock hkey with ⟨rfl, hnew⟩ | ⟨hold, hlt⟩ <;>
        rcases hlock hkey' with ⟨rfl, hnew'⟩ | ⟨hold', hlt'⟩
      · rfl
      · omega
      · omega
      · exact h.key_eq hold hold'
    · rcases hlock hkey with ⟨-, hnew⟩ | ⟨-, hlt⟩ <;> omega

theorem Extends.rfl (locks : DeviceLocks) : locks.Extends locks := ⟨id, Iff.rfl, id⟩

theorem extends_entry (locks : DeviceLocks) (key : DeviceKey) :
    locks.Extends (locks.entry key).1 where
  distinct h := h.entry key
  isTaken_iff := isTaken_entry
  lock?_eq {key' lock} hlock := by
    rw [lock?_entry]
    split
    · next heq => rw [entry_of_some (heq ▸ hlock)]
    · exact hlock

theorem Distinct.take (h : locks.Distinct) : (locks.take lock).Distinct :=
  have hlength : (locks.taken.set lock true).length = locks.taken.length := List.length_set
  ⟨h.key_eq, fun hkey => hlength.symm ▸ h.lt_length hkey⟩

theorem Distinct.release (h : locks.Distinct) : (locks.release lock).Distinct :=
  have hlength : (locks.taken.set lock false).length = locks.taken.length := List.length_set
  ⟨h.key_eq, fun hkey => hlength.symm ▸ h.lt_length hkey⟩

/-- A lock that is free is had by nobody, so whoever takes it has it alone. The last four cases are
the two tasks that could have one lock: before, or since the taking. -/
theorem HeldBy.take (place : Place) (h : locks.HeldBy holds) (hfree : locks.IsFree lock) :
    (locks.take lock).HeldBy fun place₀ lock₀ =>
      holds place₀ lock₀ ∨ (place₀ = place ∧ lock₀ = lock) := by
  have hnobody : ∀ place₀, ¬ holds place₀ lock := fun place₀ hholds =>
    absurd (hfree.symm.trans (h.isTaken_iff.mpr ⟨place₀, hholds⟩)) (by simp)
  refine ⟨?_, ?_⟩
  · intro lock₀
    rw [isTaken_take hfree, h.isTaken_iff]
    constructor
    · rintro (⟨place₀, hholds⟩ | rfl)
      · exact ⟨place₀, Or.inl hholds⟩
      · exact ⟨place, Or.inr ⟨rfl, rfl⟩⟩
    · rintro ⟨place₀, hholds | ⟨-, rfl⟩⟩
      · exact Or.inl ⟨place₀, hholds⟩
      · exact Or.inr rfl
  · rintro place₀ place₁ lock₀ (h₀ | ⟨rfl, rfl⟩) (h₁ | ⟨rfl, heq⟩)
    · exact h.place_eq h₀ h₁
    · exact absurd (heq ▸ h₀) (hnobody place₀)
    · exact absurd h₁ (hnobody place₁)
    · rfl

/-- A task that gives its only lock back has none, and others keep theirs. -/
theorem HeldBy.release (h : locks.HeldBy holds) (hholds : ∀ lock₀, holds place lock₀ ↔ lock₀ = lock) :
    (locks.release lock).HeldBy fun place₀ lock₀ => holds place₀ lock₀ ∧ place₀ ≠ place := by
  refine ⟨?_, fun h₀ h₁ => h.place_eq h₀.1 h₁.1⟩
  intro lock₀
  rw [isTaken_release, h.isTaken_iff]
  constructor
  · rintro ⟨⟨place₀, h₀⟩, hne⟩
    exact ⟨place₀, h₀, fun heq => hne ((hholds lock₀).mp (heq ▸ h₀))⟩
  · rintro ⟨place₀, h₀, hne⟩
    exact ⟨⟨place₀, h₀⟩, fun heq => hne (h.place_eq h₀ ((hholds lock₀).mpr heq))⟩

theorem HeldBy.congr {holds' : Place → Nat → Prop} (h : locks.HeldBy holds)
    (heq : ∀ place lock, holds' place lock ↔ holds place lock) : locks.HeldBy holds' := by
  obtain rfl : holds' = holds := funext fun place => funext fun lock => propext (heq place lock)
  exact h

end

end DeviceLocks

end HybridCompile
