import HybridCompile.Memory.Arena

/-!
# HybridCompile — reservations by number

A ledger is an arena with the reservations that were made in it. They are numbered in the order in
which they were granted, and each can be given back once.

* `Ledger.reserve`, `release`, `releaseAll` — the steps.
* `Ledger.get?` — the reservation with a number, and how each step changes it.
-/

namespace HybridCompile

/-- A granted reservation. -/
structure Reservation where
  label : String
  size : UInt64
  deriving DecidableEq, Repr

def Reservation.debugText (r : Reservation) : String :=
  s!"Reservation \x7b label: {Text.quoted r.label}, size_bytes: {r.size} \x7d"

/-- An arena with its reservations: at place `n` the one with number `n`, while it is held. -/
structure Ledger where
  arena : Arena
  slots : List (Option Reservation)
  deriving DecidableEq, Repr

namespace Ledger

/-- A ledger of an arena in which nothing is reserved. -/
def new (device : String) (budget : MemoryBudget) : Ledger := ⟨.new device budget, []⟩

def held (l : Ledger) : List Reservation := l.slots.filterMap id

/-- Reserve bytes; the new reservation gets the next number. There is none if the one who asks is
refused, or breaks down while the arena counts the request. -/
def reserve (l : Ledger) (size : UInt64) (label : String) : Ledger × Reply :=
  match l.arena.reserve size label with
  | (arena, .granted) => (⟨arena, l.slots ++ [some ⟨label, size⟩]⟩, .granted)
  | (arena, answer) => (⟨arena, l.slots⟩, answer)

def get? (l : Ledger) (number : Nat) : Option Reservation := (l.slots[number]?).join

/-- Give back the reservation with a number. Nothing happens if it is not held. -/
def release (l : Ledger) (number : Nat) : Ledger :=
  match l.get? number with
  | some r => ⟨l.arena.release r.size, l.slots.set number none⟩
  | none => l

/-- Give back everything that is held. -/
def releaseAll (l : Ledger) : Ledger :=
  ⟨l.held.foldl (fun arena r => arena.release r.size) l.arena, l.slots.map fun _ => none⟩

/-! What each step does to the reservations that are held. -/

/-- A granted reservation is found under the next number, and those before it where they were. -/
theorem get?_reserve {l l' : Ledger} {size : UInt64} {label : String}
    (h : l.reserve size label = (l', .granted)) (number : Nat) :
    l'.get? number =
      if number = l.slots.length then some ⟨label, size⟩ else l.get? number := by
  unfold reserve at h
  generalize l.arena.reserve size label = answered at h
  obtain ⟨arena, _ | e | _⟩ := answered
  · cases h
    rcases Nat.lt_trichotomy number l.slots.length with hlt | rfl | hgt
    · rw [if_neg (Nat.ne_of_lt hlt), get?, get?, List.getElem?_append_left hlt]
    · rw [if_pos rfl, get?, List.getElem?_concat_length]
      rfl
    · -- Past the end there is nothing, before the new reservation and after it.
      rw [if_neg (Nat.ne_of_gt hgt), get?, get?, List.getElem?_eq_none (Nat.le_of_lt hgt),
        List.getElem?_eq_none (by rw [List.length_append]; exact hgt)]
  · cases h
  · cases h

/-- A reservation is given back once, and no other is touched. -/
theorem get?_release (l : Ledger) (number other : Nat) :
    (l.release number).get? other = if other = number then none else l.get? other := by
  unfold release
  split
  · by_cases h : other = number
    · subst h
      simp [get?, List.getElem?_set]
      split <;> rfl
    · simp [get?, Ne.symm h, h]
  · next hnone =>
    by_cases h : other = number
    · rw [h, hnone, if_pos rfl]
    · rw [if_neg h]

end Ledger

end HybridCompile
