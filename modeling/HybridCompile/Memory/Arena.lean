import HybridCompile.Memory.Budget
import HybridCompile.Number.Binary64
import HybridCompile.Text.Quoted

/-!
# HybridCompile — device memory

An arena accounts for the memory of one device. Bytes are reserved under a label and given back
later; a request that does not fit the budget is refused and counted, and leaves all else as it
was. Sizes and counts are 64-bit numbers, and no sum of them wraps: the bytes that are reserved stay
within the budget, and a count that would overflow takes down the one who counts. That happens with
the lock on the statistics in hand, so from then on they are lost, while bytes are reserved and given
back as before.

* `ArenaStats` — what was counted over the arena's whole life.
* `Arena.reserve`, `Arena.release` — the two steps; `Reply` — the answers to a request.
* `Arena.Answers`, `answers_reserve` — all that a request can lead to.
-/

namespace HybridCompile

/-- The sum of two 64-bit numbers, unless it overflows. -/
def checkedSum? (a b : UInt64) : Option UInt64 :=
  if a.toNat + b.toNat < UInt64.size then some (a + b) else none

/-- A sum that does not overflow is the sum of the numbers themselves. -/
theorem checkedSum?_eq_some_iff {a b c : UInt64} :
    checkedSum? a b = some c ↔ c.toNat = a.toNat + b.toNat := by
  unfold checkedSum?
  split
  · next hlt =>
    rw [Option.some_inj, ← UInt64.toNat_inj, UInt64.toNat_add, Nat.mod_eq_of_lt hlt]
    exact eq_comm
  · next hover =>
    refine ⟨fun h => (by cases h), fun h => absurd ?_ hover⟩
    rw [← h]
    exact c.toNat_lt

theorem checkedSum?_eq_none_iff {a b : UInt64} :
    checkedSum? a b = none ↔ UInt64.size ≤ a.toNat + b.toNat := by
  unfold checkedSum?
  split <;> simp <;> omega

/-! `Option.Rel` relates two things that may be missing: both are there and related, or neither is. -/

section Rel

variable {α β γ : Type} {r : α → β → Prop} {a? : Option α} {b? : Option β} {a : α} {b : β}

theorem exists_left_of_rel (h : Option.Rel r a? (some b)) : ∃ a, a? = some a ∧ r a b := by
  cases h with
  | some hr => exact ⟨_, rfl, hr⟩

theorem exists_right_of_rel (h : Option.Rel r (some a) b?) : ∃ b, b? = some b ∧ r a b := by
  cases h with
  | some hr => exact ⟨_, rfl, hr⟩

theorem eq_none_iff_of_rel (h : Option.Rel r a? b?) : b? = none ↔ a? = none := by
  cases h <;> simp

theorem rel_imp {r' : α → β → Prop} (h : Option.Rel r a? b?) (himp : ∀ {a b}, r a b → r' a b) :
    Option.Rel r' a? b? := by
  cases h with
  | none => exact .none
  | some hr => exact .some (himp hr)

theorem rel_trans {r' : β → γ → Prop} {r'' : α → γ → Prop} {c? : Option γ}
    (h : Option.Rel r a? b?) (h' : Option.Rel r' b? c?)
    (hboth : ∀ {a b c}, r a b → r' b c → r'' a c) : Option.Rel r'' a? c? := by
  cases h with
  | none =>
    cases h'
    exact .none
  | some hr =>
    cases h' with
    | some hr' => exact .some (hboth hr hr')

end Rel

/-- What an arena counts over its life. -/
structure ArenaStats where
  /-- Reservations granted. -/
  reservations : UInt64
  /-- Reservations given back. -/
  releases : UInt64
  /-- Reservations refused for want of memory. -/
  rejected : UInt64
  /-- The most bytes that were reserved at one time. -/
  peakLiveBytes : UInt64
  /-- The bytes of all granted reservations together. -/
  cumulativeBytes : UInt64
  deriving DecidableEq, Repr

namespace ArenaStats

def zero : ArenaStats := ⟨0, 0, 0, 0, 0⟩

/-- Count a reservation after which `live` bytes are reserved, unless a count overflows. -/
def addReservation (s : ArenaStats) (size live : UInt64) : Option ArenaStats := do
  return { s with
    reservations := ← checkedSum? s.reservations 1
    cumulativeBytes := ← checkedSum? s.cumulativeBytes size
    peakLiveBytes := max s.peakLiveBytes live }

def addRelease (s : ArenaStats) : Option ArenaStats :=
  (checkedSum? s.releases 1).map fun releases => { s with releases }

def addRejection (s : ArenaStats) : Option ArenaStats :=
  (checkedSum? s.rejected 1).map fun rejected => { s with rejected }

def outstanding (s : ArenaStats) : UInt64 := s.reservations - s.releases

/-- The statistics on one line; the peak is in units of `2 ^ 20` bytes. -/
def summary (s : ArenaStats) : String :=
  let peak := (Number.Binary64.ofNat s.peakLiveBytes.toNat).div (.ofNat 1048576)
  s!"Reservations: {s.reservations} ({s.releases} released, {s.rejected} rejected), " ++
    s!"peak {peak.toFixed 2} MB, {s.cumulativeBytes} bytes cumulative"

def toJson (s : ArenaStats) : Json :=
  .record [
    ("reservations", .ofNat s.reservations.toNat), ("releases", .ofNat s.releases.toNat),
    ("rejected", .ofNat s.rejected.toNat), ("peak_live_bytes", .ofNat s.peakLiveBytes.toNat),
    ("cumulative_bytes", .ofNat s.cumulativeBytes.toNat)]

/-! What counting does: it moves its own counts, by sums that do not overflow. -/

variable {s s' : ArenaStats} {size live : UInt64}

theorem addReservation_eq_some_iff :
    s.addReservation size live = some s' ↔
      s'.reservations.toNat = s.reservations.toNat + 1 ∧
        s'.cumulativeBytes.toNat = s.cumulativeBytes.toNat + size.toNat ∧
        s' = { s with
          reservations := s'.reservations
          cumulativeBytes := s'.cumulativeBytes
          peakLiveBytes := max s.peakLiveBytes live } := by
  unfold addReservation
  simp only [bind, Option.bind_eq_some_iff, pure, Option.some_inj, checkedSum?_eq_some_iff]
  constructor
  · rintro ⟨_, hcount, _, hbytes, rfl⟩
    exact ⟨hcount, hbytes, rfl⟩
  · rintro ⟨hcount, hbytes, heq⟩
    exact ⟨_, hcount, _, hbytes, heq.symm⟩

theorem addReservation_eq_none_iff :
    s.addReservation size live = none ↔
      UInt64.size ≤ s.reservations.toNat + 1 ∨
        UInt64.size ≤ s.cumulativeBytes.toNat + size.toNat := by
  have hone : (1 : UInt64).toNat = 1 := rfl
  rw [← hone, ← checkedSum?_eq_none_iff, ← checkedSum?_eq_none_iff]
  unfold addReservation
  cases checkedSum? s.reservations 1 <;> cases checkedSum? s.cumulativeBytes size <;> simp

theorem addRelease_eq_some_iff :
    s.addRelease = some s' ↔
      s'.releases.toNat = s.releases.toNat + 1 ∧ s' = { s with releases := s'.releases } := by
  simp only [addRelease, Option.map_eq_some_iff, checkedSum?_eq_some_iff]
  constructor
  · rintro ⟨_, hcount, rfl⟩
    exact ⟨hcount, rfl⟩
  · rintro ⟨hcount, heq⟩
    exact ⟨_, hcount, heq.symm⟩

theorem addRelease_eq_none_iff :
    s.addRelease = none ↔ UInt64.size ≤ s.releases.toNat + 1 := by
  rw [addRelease, Option.map_eq_none_iff, checkedSum?_eq_none_iff]
  rfl

theorem addRejection_eq_some_iff :
    s.addRejection = some s' ↔
      s'.rejected.toNat = s.rejected.toNat + 1 ∧ s' = { s with rejected := s'.rejected } := by
  simp only [addRejection, Option.map_eq_some_iff, checkedSum?_eq_some_iff]
  constructor
  · rintro ⟨_, hcount, rfl⟩
    exact ⟨hcount, rfl⟩
  · rintro ⟨hcount, heq⟩
    exact ⟨_, hcount, heq.symm⟩

/-- A refusal that is counted moves no count but that of the refusals. -/
theorem eq_of_addRejection (h : s.addRejection = some s') :
    s' = { s with rejected := s.rejected + 1 } := by
  unfold addRejection checkedSum? at h
  split at h
  · exact (Option.some.inj h).symm
  · cases h

theorem addRejection_eq_none_iff :
    s.addRejection = none ↔ UInt64.size ≤ s.rejected.toNat + 1 := by
  rw [addRejection, Option.map_eq_none_iff, checkedSum?_eq_none_iff]
  rfl

end ArenaStats

/-- Why memory is refused. -/
inductive MemoryError where
  /-- It does not fit: so much was asked for, so much is left of the budget. -/
  | outOfMemory (device label : String) (requested available budget : UInt64)
  /-- A reservation of nothing. -/
  | zeroSized (label : String)
  deriving DecidableEq, Repr

def MemoryError.message : MemoryError → String
  | outOfMemory device label requested available budget =>
    s!"device '{device}' out of memory reserving {requested} bytes for '{label}': " ++
      s!"{available} of {budget} available"
  | zeroSized label => s!"cannot reserve zero bytes for '{label}'"

/-- The answer to a request for memory. -/
inductive Reply where
  | granted
  | refused (e : MemoryError)
  /-- There is none: the one who asked broke down while the request was counted. -/
  | crashed
  deriving DecidableEq, Repr

/-- The memory of one device. -/
structure Arena where
  device : String
  budget : MemoryBudget
  /-- The bytes reserved now. -/
  liveBytes : UInt64
  /-- What was counted so far, until someone breaks down with the lock on it in hand. -/
  stats? : Option ArenaStats
  deriving DecidableEq, Repr

namespace Arena

/-- An arena in which nothing is reserved. -/
def new (device : String) (budget : MemoryBudget) : Arena := ⟨device, budget, 0, some .zero⟩

/-- The statistics as they are shown. When they are lost, nothing is shown to have happened. -/
def stats (a : Arena) : ArenaStats := a.stats?.getD .zero

/-- The bytes that can still be reserved, if there is a bound. -/
def available? (a : Arena) : Option UInt64 :=
  a.budget.limit?.map fun limit => if a.liveBytes ≤ limit then limit - a.liveBytes else 0

/-- Whether `size` more bytes fit. -/
def fits (a : Arena) (size : UInt64) : Bool :=
  a.liveBytes.toNat + size.toNat ≤ a.budget.ceiling.toNat

/-- What the arena says when `size` bytes do not fit. -/
def refusal (a : Arena) (size : UInt64) (label : String) : MemoryError :=
  let ceiling := a.budget.ceiling
  let available := if a.liveBytes ≤ ceiling then ceiling - a.liveBytes else 0
  .outOfMemory a.device label size available ceiling

/-- Count something, and answer. A count that overflows leaves no answer and no statistics. -/
def count (a : Arena) (add : ArenaStats → Option ArenaStats) (answer : Reply) : Arena × Reply :=
  match a.stats? with
  | none => (a, answer)
  | some stats =>
    match add stats with
    | some stats => ({ a with stats? := some stats }, answer)
    | none => ({ a with stats? := none }, .crashed)

/-- Reserve bytes: the arena afterwards, and the answer. -/
def reserve (a : Arena) (size : UInt64) (label : String) : Arena × Reply :=
  if size = 0 then (a, .refused (.zeroSized label))
  else if a.fits size then
    let live := a.liveBytes + size
    -- The bytes are taken first. If counting them fails they stay taken, and nobody has them.
    count { a with liveBytes := live } (·.addReservation size live) .granted
  else a.count ArenaStats.addRejection (.refused (a.refusal size label))

/-- Give back the bytes of a reservation. It was counted when it was made, so its release overflows
no count. -/
def release (a : Arena) (size : UInt64) : Arena :=
  { a with liveBytes := a.liveBytes - size, stats? := a.stats?.bind ArenaStats.addRelease }

/-! ## What a request can lead to -/

/-- The statistics go on from `stats?` to `stats?'` by something that is counted, or they were lost
before. -/
def Counts (add : ArenaStats → Option ArenaStats) : Option ArenaStats → Option ArenaStats → Prop :=
  Option.Rel fun s s' => add s = some s'

namespace Counts

variable {add : ArenaStats → Option ArenaStats} {stats?₁ stats?₂ : Option ArenaStats}
variable {stats : ArenaStats}

theorem eq_none_iff (h : Counts add stats?₁ stats?₂) : stats?₂ = none ↔ stats?₁ = none :=
  eq_none_iff_of_rel h

/-- Statistics that are there afterwards were there before, and the count moved them. -/
theorem exists_before (h : Counts add stats?₁ (some stats)) :
    ∃ before, stats?₁ = some before ∧ add before = some stats :=
  exists_left_of_rel (r := fun s s' => add s = some s') h

theorem exists_after (h : Counts add (some stats) stats?₂) :
    ∃ after, stats?₂ = some after ∧ add stats = some after :=
  exists_right_of_rel (r := fun s s' => add s = some s') h

end Counts

/-- All that a request can lead to: the arena afterwards, and the answer. -/
inductive Answers (a : Arena) (size : UInt64) (label : String) : Arena × Reply → Prop where
  | zeroSized (hzero : size = 0) : Answers a size label (a, .refused (.zeroSized label))
  | granted {stats? : Option ArenaStats} (hpos : size ≠ 0) (hfits : a.fits size = true)
      (hcounts : Counts (·.addReservation size (a.liveBytes + size)) a.stats? stats?) :
      Answers a size label ({ a with liveBytes := a.liveBytes + size, stats? }, .granted)
  /-- It fits, and its bytes are taken, but they cannot be counted. -/
  | lost {stats : ArenaStats} (hpos : size ≠ 0) (hfits : a.fits size = true)
      (hsome : a.stats? = some stats)
      (hover : stats.addReservation size (a.liveBytes + size) = none) :
      Answers a size label ({ a with liveBytes := a.liveBytes + size, stats? := none }, .crashed)
  | refused {stats? : Option ArenaStats} (hpos : size ≠ 0) (hfull : ¬ a.fits size = true)
      (hcounts : Counts ArenaStats.addRejection a.stats? stats?) :
      Answers a size label ({ a with stats? }, .refused (a.refusal size label))
  /-- It does not fit, and that cannot be counted. -/
  | uncounted {stats : ArenaStats} (hpos : size ≠ 0) (hfull : ¬ a.fits size = true)
      (hsome : a.stats? = some stats) (hover : stats.addRejection = none) :
      Answers a size label ({ a with stats? := none }, .crashed)

theorem count_cases (a : Arena) (add : ArenaStats → Option ArenaStats) (answer : Reply) :
    (∃ stats?, Counts add a.stats? stats? ∧ a.count add answer = ({ a with stats? }, answer)) ∨
      ∃ stats, a.stats? = some stats ∧ add stats = none ∧
        a.count add answer = ({ a with stats? := none }, .crashed) := by
  obtain ⟨device, budget, live, _ | stats⟩ := a
  · exact .inl ⟨none, .none, rfl⟩
  · unfold count
    cases hadd : add stats with
    | some stats' => exact .inl ⟨some stats', .some hadd, by simp only [hadd]⟩
    | none => exact .inr ⟨stats, rfl, hadd, by simp only [hadd]⟩

theorem answers_reserve (a : Arena) (size : UInt64) (label : String) :
    a.Answers size label (a.reserve size label) := by
  unfold reserve
  split
  · next hzero => exact .zeroSized hzero
  · next hpos =>
    split
    · next hfits =>
      rcases count_cases { a with liveBytes := a.liveBytes + size }
          (·.addReservation size (a.liveBytes + size)) .granted with
        ⟨stats?, hcounts, hr⟩ | ⟨stats, hsome, hover, hr⟩
      · rw [hr]
        exact .granted hpos hfits hcounts
      · rw [hr]
        exact .lost hpos hfits hsome hover
    · next hfull =>
      rcases count_cases a ArenaStats.addRejection (.refused (a.refusal size label)) with
        ⟨stats?, hcounts, hr⟩ | ⟨stats, hsome, hover, hr⟩
      · rw [hr]
        exact .refused hpos hfull hcounts
      · rw [hr]
        exact .uncounted hpos hfull hsome hover

/-- What fits is added without wrapping: the ceiling is a 64-bit number itself. -/
theorem toNat_liveBytes_add {a : Arena} {size : UInt64} (hfits : a.fits size = true) :
    (a.liveBytes + size).toNat = a.liveBytes.toNat + size.toNat := by
  have hle := of_decide_eq_true hfits
  have hlt := a.budget.ceiling.toNat_lt
  rw [UInt64.toNat_add, Nat.mod_eq_of_lt (Nat.lt_of_le_of_lt hle hlt)]

/-- What is given back was reserved, so taking it off does not wrap either. -/
theorem toNat_liveBytes_release {a : Arena} {size : UInt64}
    (hle : size.toNat ≤ a.liveBytes.toNat) :
    (a.release size).liveBytes.toNat = a.liveBytes.toNat - size.toNat :=
  UInt64.toNat_sub_of_le _ _ (UInt64.le_iff_toNat_le.mpr hle)

def debugText (a : Arena) : String :=
  s!"DeviceArena \x7b device: {Text.quoted a.device}, budget: {a.budget.debugText}, " ++
    s!"live_bytes: {a.liveBytes} \x7d"

end Arena

end HybridCompile
