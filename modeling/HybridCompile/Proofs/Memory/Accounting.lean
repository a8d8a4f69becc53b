import HybridCompile.Proofs.Memory.History
import Mathlib.Algebra.GroupWithZero.Nat
import Mathlib.Order.Bounds.Basic
import Mathlib.Tactic.MkIffOfInductiveProp

/-!
# HybridCompile — the accounts of an arena

An arena sees sizes only: neither who holds a reservation nor in which order they come back. Still
its accounts are exact after every history. The invariant that carries this compares sizes as
multisets: what was granted is what came back together with what is held. When a count overflows the
one who asked breaks down; that happens at most once, the bytes of that request stay reserved, and
the statistics are lost. Until then they tell the history.

* `Ledger.Accounted`, `Ledger.Counted` — what the numbers of an arena say of a history.
* `Accounted.transition`, `accounted_run` — they are right at every moment.
* `Accounted.isCrash_step_iff` — when somebody breaks down.
* `isGreatest_peakLiveBytes` — the peak is that of the whole history.
* `accounts_exact` — all together.
-/

namespace HybridCompile

/-- The bytes of some sizes together. -/
def totalBytes (sizes : List UInt64) : Nat := (sizes.map UInt64.toNat).sum

theorem totalBytes_concat (sizes : List UInt64) (size : UInt64) :
    totalBytes (sizes ++ [size]) = totalBytes sizes + size.toNat := by
  simp [totalBytes]

theorem totalBytes_cons (size : UInt64) (sizes : List UInt64) :
    totalBytes (size :: sizes) = size.toNat + totalBytes sizes := by
  simp [totalBytes]

/-- In which order sizes are added up makes no difference to the sum, and so it does not matter in
which order reservations come back. -/
theorem totalBytes_eq_of_perm {sizes sizes' : List UInt64} (h : sizes.Perm sizes') :
    totalBytes sizes = totalBytes sizes' :=
  (h.map UInt64.toNat).sum_nat

/-- While the bytes stay within a limit, the rest of it is available. -/
theorem Arena.exists_available?_add_liveBytes {a : Arena} {limit : UInt64}
    (hlimit : a.budget = .limited limit) (hle : a.liveBytes.toNat ≤ a.budget.ceiling.toNat) :
    ∃ free, a.available? = some free ∧ free.toNat + a.liveBytes.toNat = limit.toNat := by
  rw [hlimit] at hle
  have hle' : a.liveBytes ≤ limit := UInt64.le_iff_toNat_le.mpr hle
  refine ⟨limit - a.liveBytes, ?_, ?_⟩
  · rw [available?, hlimit]
    exact congrArg some (if_pos hle')
  · rw [UInt64.toNat_sub_of_le _ _ hle']
    exact Nat.sub_add_cancel hle

/-- A request that cannot be counted: the statistics are there, and counting it overflows. -/
def Arena.CannotCount (a : Arena) (size : UInt64) : Prop :=
  ∃ stats ∈ a.stats?,
    if a.fits size = true then stats.addReservation size (a.liveBytes + size) = none
    else stats.addRejection = none

instance (a : Arena) (size : UInt64) : Decidable (a.CannotCount size) :=
  inferInstanceAs (Decidable (∃ stats ∈ a.stats?, _))

/-- The one who asks breaks down exactly in a request for something that cannot be counted. A
request for nothing is refused before anything is counted. -/
theorem Arena.reserve_eq_crashed_iff {a : Arena} {size : UInt64} (label : String) :
    (a.reserve size label).2 = .crashed ↔ size ≠ 0 ∧ a.CannotCount size := by
  have hanswers := a.answers_reserve size label
  generalize a.reserve size label = answered at hanswers ⊢
  cases hanswers with
  | zeroSized hzero => exact iff_of_false (fun h => (by cases h)) fun h => h.1 hzero
  | granted hpos hfits hcounts =>
    refine iff_of_false (fun h => (by cases h)) ?_
    rintro ⟨-, stats, hsome, hover⟩
    rw [if_pos hfits] at hover
    rw [hsome] at hcounts
    obtain ⟨after, -, hadd⟩ := hcounts.exists_after
    exact absurd (hover.symm.trans hadd) (by simp)
  | lost hpos hfits hsome hover =>
    exact iff_of_true rfl ⟨hpos, _, hsome, by rwa [if_pos hfits]⟩
  | refused hpos hfull hcounts =>
    refine iff_of_false (fun h => (by cases h)) ?_
    rintro ⟨-, stats, hsome, hover⟩
    rw [if_neg hfull] at hover
    rw [hsome] at hcounts
    obtain ⟨after, -, hadd⟩ := hcounts.exists_after
    exact absurd (hover.symm.trans hadd) (by simp)
  | uncounted hpos hfull hsome hover =>
    exact iff_of_true rfl ⟨hpos, _, hsome, by rwa [if_neg hfull]⟩

namespace Ledger

/-! ## What is held -/

/-- The sizes of the reservations that some slots hold. -/
def heldSizes (slots : List (Option Reservation)) : List UInt64 :=
  (slots.filterMap id).map Reservation.size

theorem heldSizes_concat (slots : List (Option Reservation)) (r : Reservation) :
    heldSizes (slots ++ [some r]) = heldSizes slots ++ [r.size] := by
  simp [heldSizes]

/-- A slot that is cleared takes its own reservation away and no other. Induction on the slots, over
all numbers. -/
theorem filterMap_perm_cons_set {slots : List (Option Reservation)} {number : Nat}
    {r : Reservation} (h : (slots[number]?).join = some r) :
    (slots.filterMap id).Perm (r :: (slots.set number none).filterMap id) := by
  induction slots generalizing number with
  | nil => exact absurd h (by simp)
  | cons slot rest ih =>
    cases number with
    | zero =>
      have hslot : slot = some r := by simpa using h
      rw [hslot]
      exact .refl _
    | succ number =>
      have hrest : (rest.filterMap id).Perm (r :: (rest.set number none).filterMap id) :=
        ih (by simpa using h)
      cases slot with
      | none => exact hrest
      | some other => exact (hrest.cons other).trans (.swap r other _)

/-- The sizes held are the one that comes back together with those that are held afterwards, up to
order. -/
theorem heldSizes_perm_of_get? {l : Ledger} {number : Nat} {r : Reservation}
    (hheld : l.get? number = some r) :
    (heldSizes l.slots).Perm (r.size :: heldSizes (l.slots.set number none)) :=
  (filterMap_perm_cons_set hheld).map Reservation.size

/-! ## The accounts -/

/-- The sizes that were granted, in order. -/
def grantedSizes (events : List Event) : List UInt64 := events.filterMap Event.granted?

/-- The sizes that came back, in order. -/
def returnedSizes (events : List Event) : List UInt64 := events.filterMap Event.returned?

/-- The sizes whose bytes nobody holds, because the one who asked for them broke down. -/
def lostSizes (events : List Event) : List UInt64 := events.filterMap Event.lost?

@[simp] theorem grantedSizes_concat (events : List Event) (e : Event) :
    grantedSizes (events ++ [e]) = grantedSizes events ++ e.granted?.toList := by
  cases e <;> simp [grantedSizes, Event.granted?]

@[simp] theorem returnedSizes_concat (events : List Event) (e : Event) :
    returnedSizes (events ++ [e]) = returnedSizes events ++ e.returned?.toList := by
  cases e <;> simp [returnedSizes, Event.returned?]

@[simp] theorem lostSizes_concat (events : List Event) (e : Event) :
    lostSizes (events ++ [e]) = lostSizes events ++ e.lost?.toList := by
  cases e <;> simp [lostSizes, Event.lost?]

/-- The statistics of an arena are those of a history. -/
structure Counted (events : List Event) (stats : ArenaStats) : Prop where
  reservations_eq : stats.reservations.toNat = (grantedSizes events).length
  releases_eq : stats.releases.toNat = (returnedSizes events).length
  rejected_eq : stats.rejected.toNat = events.count .refused
  cumulative_eq : stats.cumulativeBytes.toNat = totalBytes (grantedSizes events)

/-- The numbers of a ledger's arena are those of a history. Somebody has broken down, and no more
than one, exactly when the statistics are lost; until then they are `Counted`. -/
structure Accounted (events : List Event) (l : Ledger) : Prop where
  granted_pos : ∀ size ∈ grantedSizes events, size ≠ 0
  granted_perm : (grantedSizes events).Perm (returnedSizes events ++ heldSizes l.slots)
  live_eq : l.arena.liveBytes.toNat =
    totalBytes (heldSizes l.slots) + totalBytes (lostSizes events)
  live_le : l.arena.liveBytes.toNat ≤ l.arena.budget.ceiling.toNat
  crashes_eq : events.countP Event.isCrash = if l.arena.stats? = none then 1 else 0
  counted : ∀ stats, l.arena.stats? = some stats → Counted events stats

/-- The accounts of a new arena are those of no history. -/
theorem accounted_new (device : String) (budget : MemoryBudget) :
    Accounted [] (new device budget) where
  granted_pos size hmem := by cases hmem
  granted_perm := .refl _
  live_eq := rfl
  live_le := Nat.zero_le _
  crashes_eq := rfl
  counted stats hstats := by
    cases hstats
    exact ⟨rfl, rfl, rfl, rfl⟩

section Accounted

variable {events : List Event} {e : Event} {l l' : Ledger} {stats : ArenaStats}

/-- What is not given back is held. -/
theorem Accounted.length_eq (h : Accounted events l) :
    (grantedSizes events).length = (returnedSizes events).length + l.held.length := by
  have hlength := h.granted_perm.length_eq
  rwa [List.length_append, heldSizes, List.length_map] at hlength

/-- While the statistics are there nobody has broken down, so no bytes are lost. -/
theorem Accounted.lostSizes_eq_nil (h : Accounted events l) (hstats : l.arena.stats? = some stats) :
    lostSizes events = [] := by
  have hnone := h.crashes_eq
  rw [hstats, if_neg (by simp), List.countP_eq_zero] at hnone
  refine List.filterMap_eq_nil_iff.mpr fun e he => ?_
  cases e with
  | lost size => exact absurd rfl (hnone _ he)
  | _ => rfl

/-- What comes back is part of what is live. Taking it off leaves the bytes of what is still held,
and those that are lost. -/
theorem toNat_liveBytes_release_of_get? {lost number : Nat} {r : Reservation}
    (hlive : l.arena.liveBytes.toNat = totalBytes (heldSizes l.slots) + lost)
    (hheld : l.get? number = some r) :
    (l.arena.release r.size).liveBytes.toNat =
        totalBytes (heldSizes (l.slots.set number none)) + lost ∧
      (l.arena.release r.size).liveBytes.toNat ≤ l.arena.liveBytes.toNat := by
  have htotal := totalBytes_eq_of_perm (heldSizes_perm_of_get? hheld)
  rw [totalBytes_cons] at htotal
  have hrelease : (l.arena.release r.size).liveBytes.toNat =
      l.arena.liveBytes.toNat - r.size.toNat := Arena.toNat_liveBytes_release (by omega)
  omega

/-- A release is counted without overflow: what comes back was counted when it was granted. -/
theorem Accounted.addRelease_ne_none {number : Nat} {r : Reservation} (h : Accounted events l)
    (hheld : l.get? number = some r) (hstats : l.arena.stats? = some stats) :
    stats.addRelease ≠ none := by
  have hcounted := h.counted stats hstats
  have hlength := h.granted_perm.length_eq
  rw [List.length_append, (heldSizes_perm_of_get? hheld).length_eq, List.length_cons] at hlength
  have hlt := stats.reservations.toNat_lt
  rw [Ne, ArenaStats.addRelease_eq_none_iff, hcounted.releases_eq]
  rw [hcounted.reservations_eq] at hlt
  exact Nat.not_le.mpr (lt_of_le_of_lt (by omega) hlt)

/-- What is granted is counted where the statistics are there: one reservation more, and its bytes.
-/
theorem Counted.granted {size : UInt64} {stats' : ArenaStats} {live : UInt64}
    (h : Counted events stats) (hadd : stats.addReservation size live = some stats') :
    Counted (events ++ [.granted size]) stats' := by
  obtain ⟨hcount, hbytes, heq⟩ := ArenaStats.addReservation_eq_some_iff.mp hadd
  refine ⟨?_, ?_, ?_, ?_⟩
  · simp [hcount, h.reservations_eq, Event.granted?]
  · rw [heq]
    simp [h.releases_eq, Event.returned?]
  · rw [heq]
    simp [h.rejected_eq]
  · rw [hbytes, h.cumulative_eq, grantedSizes_concat]
    exact (totalBytes_concat _ _).symm

/-- A refusal that is counted is one more. -/
theorem Counted.refused {stats' : ArenaStats} (h : Counted events stats)
    (hadd : stats.addRejection = some stats') : Counted (events ++ [.refused]) stats' := by
  obtain ⟨hcount, heq⟩ := ArenaStats.addRejection_eq_some_iff.mp hadd
  refine ⟨?_, ?_, ?_, ?_⟩
  · rw [heq]
    simp [h.reservations_eq, Event.granted?]
  · rw [heq]
    simp [h.releases_eq, Event.returned?]
  · simp [hcount, h.rejected_eq]
  · rw [heq]
    simp [h.cumulative_eq, Event.granted?]

/-- A return that is counted is one more. -/
theorem Counted.returned {size : UInt64} {stats' : ArenaStats} (h : Counted events stats)
    (hadd : stats.addRelease = some stats') : Counted (events ++ [.returned size]) stats' := by
  obtain ⟨hcount, heq⟩ := ArenaStats.addRelease_eq_some_iff.mp hadd
  refine ⟨?_, ?_, ?_, ?_⟩
  · rw [heq]
    simp [h.reservations_eq, Event.granted?]
  · simp [hcount, h.releases_eq, Event.returned?]
  · rw [heq]
    simp [h.rejected_eq]
  · rw [heq]
    simp [h.cumulative_eq, Event.granted?]

/-- Only what is asked for at a size is granted. -/
theorem Accounted.granted_pos_concat (h : Accounted events l) (ht : l.Transition e l') :
    ∀ size ∈ grantedSizes (events ++ [e]), size ≠ 0 := by
  have hpos := h.granted_pos
  cases ht with
  | granted label hsize => simpa [Event.granted?, or_imp, forall_and] using ⟨hpos, hsize⟩
  | _ => simpa [Event.granted?] using hpos

/-- A granted size joins the held ones as it joins the granted ones, and one that comes back moves
from the held to the returned. Nothing else that happens touches the slots. -/
theorem Accounted.granted_perm_concat (h : Accounted events l) (ht : l.Transition e l') :
    (grantedSizes (events ++ [e])).Perm (returnedSizes (events ++ [e]) ++ heldSizes l'.slots) := by
  have hperm := h.granted_perm
  cases ht with
  | @granted size stats? label =>
    have hright := hperm.append_right [size]
    rw [List.append_assoc, ← heldSizes_concat l.slots ⟨label, size⟩] at hright
    simpa [Event.granted?, Event.returned?] using hright
  | returned hheld =>
    have hmoved := hperm.trans ((heldSizes_perm_of_get? hheld).append_left _)
    simpa [Event.granted?, Event.returned?] using hmoved
  | _ => simpa [Event.granted?, Event.returned?] using hperm

/-- What is reserved is what is held and what is lost, and it is within the budget. A size that is
lost stays in the live bytes and joins no slot. -/
theorem Accounted.live_concat (h : Accounted events l) (ht : l.Transition e l') :
    l'.arena.liveBytes.toNat =
        totalBytes (heldSizes l'.slots) + totalBytes (lostSizes (events ++ [e])) ∧
      l'.arena.liveBytes.toNat ≤ l'.arena.budget.ceiling.toNat := by
  have hlive := h.live_eq
  cases ht with
  | @granted size stats? label hsize hfits =>
    have hadd := Arena.toNat_liveBytes_add hfits
    refine ⟨?_, hadd.trans_le (of_decide_eq_true hfits)⟩
    show (l.arena.liveBytes + size).toNat = totalBytes (heldSizes (l.slots ++ _)) + _
    rw [hadd, hlive, heldSizes_concat, totalBytes_concat, lostSizes_concat]
    simp only [Event.lost?, Option.toList_none, List.append_nil]
    omega
  | @lost size stats hsize hfits =>
    have hadd := Arena.toNat_liveBytes_add hfits
    refine ⟨?_, hadd.trans_le (of_decide_eq_true hfits)⟩
    show (l.arena.liveBytes + size).toNat = _
    rw [hadd, hlive, lostSizes_concat, Nat.add_assoc]
    exact congrArg _ (totalBytes_concat _ _).symm
  | returned hheld =>
    obtain ⟨hafter, hle⟩ := toNat_liveBytes_release_of_get? hlive hheld
    exact ⟨by simpa [Event.lost?] using hafter, hle.trans h.live_le⟩
  | _ => exact ⟨by simpa [Event.lost?] using hlive, h.live_le⟩

/-- The statistics go with the one who breaks down over them, and with nobody else. -/
theorem Accounted.crashes_concat (h : Accounted events l) (ht : l.Transition e l') :
    (events ++ [e]).countP Event.isCrash = if l'.arena.stats? = none then 1 else 0 := by
  have hcrashes := h.crashes_eq
  cases ht with
  | granted _ _ _ hcounts | refused _ _ hcounts =>
    simpa [Event.isCrash, hcounts.eq_none_iff] using hcrashes
  | lost _ _ hsome | uncounted _ _ hsome =>
    rw [hsome, if_neg (by simp)] at hcrashes
    simp [hcrashes, Event.isCrash]
  | @returned number r hheld =>
    have hreleased : (l.arena.release r.size).stats? = none ↔ l.arena.stats? = none := by
      cases hstats : l.arena.stats? with
      | none => simp [Arena.release, hstats]
      | some stats => simpa [Arena.release, hstats] using h.addRelease_ne_none hheld hstats
    simpa [Event.isCrash, hreleased] using hcrashes
  | zeroSized | idle => simpa [Event.isCrash] using hcrashes

/-- Statistics that are there afterwards were there before, and have counted what happened. -/
theorem Accounted.counted_concat (h : Accounted events l) (ht : l.Transition e l') :
    ∀ stats', l'.arena.stats? = some stats' → Counted (events ++ [e]) stats' := by
  intro stats' hstats'
  cases ht with
  | granted _ _ _ hcounts =>
    subst hstats'
    obtain ⟨stats, hbefore, hstep⟩ := hcounts.exists_before
    exact (h.counted stats hbefore).granted hstep
  | refused _ _ hcounts =>
    subst hstats'
    obtain ⟨stats, hbefore, hstep⟩ := hcounts.exists_before
    exact (h.counted stats hbefore).refused hstep
  | returned =>
    obtain ⟨stats, hbefore, hstep⟩ := Option.bind_eq_some_iff.mp hstats'
    exact (h.counted stats hbefore).returned hstep
  | lost | uncounted => cases hstats'
  | zeroSized | idle =>
    obtain ⟨hreservations, hreleases, hrejected, hcumulative⟩ := h.counted stats' hstats'
    constructor <;> simpa [Event.granted?, Event.returned?]

/-- The accounts are kept by every `Transition`. Each field is a lemma of its own, by cases on the
transition. -/
theorem Accounted.transition (h : Accounted events l) (ht : l.Transition e l') :
    Accounted (events ++ [e]) l' where
  granted_pos := h.granted_pos_concat ht
  granted_perm := h.granted_perm_concat ht
  live_eq := (h.live_concat ht).1
  live_le := (h.live_concat ht).2
  crashes_eq := h.crashes_concat ht
  counted := h.counted_concat ht

end Accounted

/-- After every history from an arena in which nothing is reserved the accounts are right:
`accounted_new` at the start, and `Accounted.transition` for each step. -/
theorem accounted_run (device : String) (budget : MemoryBudget) (steps : List Step) :
    Accounted ((new device budget).events steps) ((new device budget).run steps) :=
  holds_of_transition (accounted_new device budget) Accounted.transition steps

/-! ## The budget -/

theorem Transition.budget_eq {l l' : Ledger} {e : Event} (ht : l.Transition e l') :
    l'.arena.budget = l.arena.budget := by
  cases ht <;> rfl

theorem budget_run (l : Ledger) (steps : List Step) :
    (l.run steps).arena.budget = l.arena.budget :=
  holds_of_transition (P := fun _ l' => l'.arena.budget = l.arena.budget) rfl
    (fun h ht => ht.budget_eq.trans h) steps

/-! ## The peak -/

/-- How much was reserved at the moments of a history, its start and its end included. -/
def liveHistory (l : Ledger) (steps : List Step) : Set Nat :=
  {bytes | ∃ p, p <+: steps ∧ (l.run p).arena.liveBytes.toNat = bytes}

theorem liveHistory_nil (l : Ledger) : l.liveHistory [] = {l.arena.liveBytes.toNat} := by
  ext bytes
  simp [liveHistory, run, eq_comm]

/-- One step more adds one moment to the history. -/
theorem liveHistory_concat (l : Ledger) (steps : List Step) (s : Step) :
    l.liveHistory (steps ++ [s]) =
      insert (l.run (steps ++ [s])).arena.liveBytes.toNat (l.liveHistory steps) := by
  ext bytes
  simp only [liveHistory, Set.mem_ofPred_eq, Set.mem_insert_iff, List.prefix_concat_iff]
  constructor
  · rintro ⟨p, rfl | hp, rfl⟩
    · exact .inl rfl
    · exact .inr ⟨p, hp, rfl⟩
  · rintro (rfl | ⟨p, hp, rfl⟩)
    · exact ⟨_, .inl rfl, rfl⟩
    · exact ⟨p, .inr hp, rfl⟩

/-- Statistics that are there after a step were there before it. -/
theorem Transition.exists_stats {e : Event} {l l' : Ledger} (ht : l.Transition e l')
    {stats' : ArenaStats} (hstats' : l'.arena.stats? = some stats') :
    ∃ stats, l.arena.stats? = some stats := by
  refine Option.ne_none_iff_exists'.mp fun hlost => ?_
  rw [ht.stats?_eq_none hlost] at hstats'
  cases hstats'

/-- One step brings the peak up to what is live afterwards, if that is more. Where bytes come back
less is live than before, and the peak was not below that. -/
theorem Transition.peak_eq {events : List Event} {e : Event} {l l' : Ledger}
    (ht : l.Transition e l') (h : Accounted events l) {stats stats' : ArenaStats}
    (hstats : l.arena.stats? = some stats) (hstats' : l'.arena.stats? = some stats')
    (hpeak : l.arena.liveBytes.toNat ≤ stats.peakLiveBytes.toNat) :
    stats'.peakLiveBytes.toNat = max l'.arena.liveBytes.toNat stats.peakLiveBytes.toNat := by
  cases ht with
  | granted _ _ _ hcounts =>
    rw [hstats] at hcounts
    obtain ⟨after, hafter, hadd⟩ := hcounts.exists_after
    obtain rfl := Option.some.inj (hafter.symm.trans hstats')
    rw [(ArenaStats.addReservation_eq_some_iff.mp hadd).2.2]
    exact (UInt64.toNat_max _ _).trans (Nat.max_comm _ _)
  | refused _ _ hcounts =>
    rw [hstats] at hcounts
    obtain ⟨after, hafter, hadd⟩ := hcounts.exists_after
    obtain rfl := Option.some.inj (hafter.symm.trans hstats')
    rw [(ArenaStats.addRejection_eq_some_iff.mp hadd).2]
    exact (max_eq_right hpeak).symm
  | lost | uncounted => cases hstats'
  | zeroSized | idle =>
    obtain rfl := Option.some.inj (hstats.symm.trans hstats')
    exact (max_eq_right hpeak).symm
  | @returned number r hheld =>
    -- Less is reserved than before, so the peak stays.
    obtain ⟨-, hle⟩ := toNat_liveBytes_release_of_get? h.live_eq hheld
    obtain ⟨before, hbefore, hadd⟩ := Option.bind_eq_some_iff.mp hstats'
    obtain rfl := Option.some.inj (hstats.symm.trans hbefore)
    rw [(ArenaStats.addRelease_eq_some_iff.mp hadd).2]
    exact (max_eq_right (hle.trans hpeak)).symm

/-- As long as the statistics are there, their peak is the highest point of `liveHistory`. The
induction takes the steps from the end, as the history goes on. -/
theorem isGreatest_peakLiveBytes (device : String) (budget : MemoryBudget) (steps : List Step)
    {stats : ArenaStats} (hstats : ((new device budget).run steps).arena.stats? = some stats) :
    IsGreatest ((new device budget).liveHistory steps) stats.peakLiveBytes.toNat := by
  induction steps using List.reverseRecOn generalizing stats with
  | nil =>
    cases hstats
    rw [liveHistory_nil]
    exact isGreatest_singleton
  | append_singleton steps s ih =>
    rw [run_concat] at hstats
    have hstep := transition_step ((new device budget).run steps) s
    obtain ⟨before, hbefore⟩ := hstep.exists_stats hstats
    -- The state reached so far is one of the moments that `ih` bounds.
    have hnow : ((new device budget).run steps).arena.liveBytes.toNat ∈
        (new device budget).liveHistory steps := ⟨steps, List.prefix_refl steps, rfl⟩
    have hpeak := hstep.peak_eq (accounted_run device budget steps) hbefore hstats
      ((ih hbefore).2 hnow)
    rw [← run_concat] at hpeak
    rw [liveHistory_concat, hpeak]
    exact (ih hbefore).insert _

/-! ## Breaking down -/

/-- A request for so many bytes cannot be counted after some events: the statistics are still there,
and the bytes granted, or the refusals, would come to more than a 64-bit number. -/
def Overflows (events : List Event) (l : Ledger) (size : UInt64) : Prop :=
  l.arena.stats? ≠ none ∧
    if l.arena.fits size = true then
      UInt64.size ≤ totalBytes (grantedSizes events) + size.toNat
    else UInt64.size ≤ events.count .refused + 1

instance (events : List Event) (l : Ledger) (size : UInt64) :
    Decidable (Overflows events l size) :=
  inferInstanceAs (Decidable (_ ∧ _))

/-- Sizes that are not zero come to at least as many bytes as there are sizes. Induction on the
sizes. -/
theorem length_le_totalBytes {sizes : List UInt64} (hpos : ∀ size ∈ sizes, size ≠ 0) :
    sizes.length ≤ totalBytes sizes := by
  induction sizes with
  | nil => exact Nat.le_refl 0
  | cons size rest ih =>
    have hsize : size.toNat ≠ 0 := fun h =>
      hpos size List.mem_cons_self (UInt64.toNat_inj.mp h)
    have hrest := ih fun size' hmem => hpos size' (List.mem_cons_of_mem size hmem)
    rw [List.length_cons, totalBytes_cons]
    omega

section Accounted

variable {events : List Event} {l : Ledger} {stats : ArenaStats} {size : UInt64}

/-- The count of the grants does not overflow before that of the bytes: each grant is of one byte at
least. -/
theorem Accounted.addReservation_eq_none_iff (h : Accounted events l)
    (hstats : l.arena.stats? = some stats) (hpos : size ≠ 0) (live : UInt64) :
    stats.addReservation size live = none ↔
      UInt64.size ≤ totalBytes (grantedSizes events) + size.toNat := by
  have hcounted := h.counted stats hstats
  have hlength := length_le_totalBytes h.granted_pos
  have hsize : size.toNat ≠ 0 := fun hzero => hpos (UInt64.toNat_inj.mp hzero)
  rw [ArenaStats.addReservation_eq_none_iff, hcounted.reservations_eq, hcounted.cumulative_eq]
  omega

/-- A refusal overflows its count exactly if that many refusals and one more come to `2 ^ 64`. -/
theorem Accounted.addRejection_eq_none_iff (h : Accounted events l)
    (hstats : l.arena.stats? = some stats) :
    stats.addRejection = none ↔ UInt64.size ≤ events.count .refused + 1 := by
  rw [ArenaStats.addRejection_eq_none_iff, (h.counted stats hstats).rejected_eq]

/-- What the arena cannot count, by its own counters, is what `Overflows` by the history. -/
theorem Accounted.cannotCount_iff (h : Accounted events l) (hpos : size ≠ 0) :
    l.arena.CannotCount size ↔ Overflows events l size := by
  unfold Arena.CannotCount Overflows
  cases hstats : l.arena.stats? with
  | none => simp
  | some stats => simp [h.addReservation_eq_none_iff hstats hpos, h.addRejection_eq_none_iff hstats]

theorem isCrash_step_reserve (l : Ledger) (size : UInt64) (label : String) :
    (l.step (.reserve size label)).2.isCrash = true ↔
      (l.arena.reserve size label).2 = .crashed := by
  rw [step, Ledger.reserve]
  rcases l.arena.reserve size label with ⟨arena, _ | _ | _⟩
  · simp [Event.isCrash]
  · next e => cases e <;> simp [Event.isCrash]
  · cases l.arena.fits size <;> simp [Event.isCrash]

/-- Somebody breaks down exactly in a request that `Overflows`; to give back never breaks anybody
down, by `Accounted.addRelease_ne_none`. -/
theorem Accounted.isCrash_step_iff (h : Accounted events l) (s : Step) :
    (l.step s).2.isCrash = true ↔
      ∃ size label, s = .reserve size label ∧ size ≠ 0 ∧ Overflows events l size := by
  cases s with
  | reserve size label =>
    rw [isCrash_step_reserve, Arena.reserve_eq_crashed_iff]
    constructor
    · rintro ⟨hpos, hcannot⟩
      exact ⟨size, label, rfl, hpos, (h.cannotCount_iff hpos).mp hcannot⟩
    · rintro ⟨_, _, heq, hpos, hover⟩
      cases heq
      exact ⟨hpos, (h.cannotCount_iff hpos).mpr hover⟩
  | release number =>
    refine iff_of_false ?_ (by rintro ⟨_, _, heq, -⟩; cases heq)
    rw [step]
    cases l.get? number <;> exact Bool.false_ne_true

end Accounted

/-! ## All accounts together -/

/-- Whatever is reserved and given back, by whomever and in which order: at every moment the bytes
are those of the reservations held and of a request that could not be counted, they are within the
budget, and what is available is what they leave of the limit. As long as the statistics are there no
bytes are lost, the peak is that of the whole history, and the counts are those of the grants, returns
and refusals. They are lost in the first step in which a count overflows, and in no other. -/
theorem accounts_exact (device : String) (budget : MemoryBudget) (steps : List Step) :
    let start := new device budget
    let l := start.run steps
    let events := start.events steps
    l.arena.budget = budget ∧ Accounted events l ∧
      (∀ stats, l.arena.stats? = some stats →
        lostSizes events = [] ∧ IsGreatest (start.liveHistory steps) stats.peakLiveBytes.toNat ∧
        stats.releases ≤ stats.reservations ∧ stats.outstanding.toNat = l.held.length) ∧
      (match budget with
        | .unlimited => l.arena.available? = none
        | .limited limit => ∃ free, l.arena.available? = some free ∧
            free.toNat + l.arena.liveBytes.toNat = limit.toNat) ∧
      ∀ s, (l.step s).2.isCrash = true ↔
        ∃ size label, s = .reserve size label ∧ size ≠ 0 ∧ Overflows events l size := by
  intro start l events
  have haccounted : Accounted events l := accounted_run device budget steps
  have hbudget : l.arena.budget = budget := budget_run start steps
  refine ⟨hbudget, haccounted, fun stats hstats => ?_, ?_, haccounted.isCrash_step_iff⟩
  · have hcounted := haccounted.counted stats hstats
    have hlength := haccounted.length_eq
    rw [← hcounted.reservations_eq, ← hcounted.releases_eq] at hlength
    have hle : stats.releases ≤ stats.reservations :=
      UInt64.le_iff_toNat_le.mpr (hlength.symm ▸ Nat.le_add_right _ _)
    refine ⟨haccounted.lostSizes_eq_nil hstats, isGreatest_peakLiveBytes device budget steps hstats,
      hle, ?_⟩
    rw [ArenaStats.outstanding, UInt64.toNat_sub_of_le _ _ hle, hlength, Nat.add_sub_cancel_left]
  · cases budget with
    | unlimited =>
      show l.arena.available? = none
      rw [Arena.available?, hbudget]
      rfl
    | limited limit => exact Arena.exists_available?_add_liveBytes hbudget haccounted.live_le

/-- All that can be counted is granted and comes back. One byte more cannot be counted: it stays
reserved though nobody holds anything, and what is shown is that nothing ever happened. -/
theorem accounts_lost :
    let start := new "gpu0" .unlimited
    let all : UInt64 := 0xFFFFFFFFFFFFFFFF
    let steps := [.reserve all "a", .release 0, .reserve 1 "b"]
    start.events steps = [.granted all, .returned all, .lost 1] ∧
      (start.run steps).held = [] ∧ (start.run steps).arena.liveBytes = 1 ∧
      (start.run steps).arena.stats = .zero := by
  decide

example :
    let steps := [.reserve 60 "a", .reserve 50 "b", .reserve 30 "c", .release 0, .release 0]
    let l := new "gpu0" (.limited 100)
    l.events steps = [.granted 60, .refused, .granted 30, .returned 60, .idle] ∧
      (l.run steps).arena.stats = ⟨2, 1, 1, 90, 90⟩ := by
  decide

end Ledger

end HybridCompile
