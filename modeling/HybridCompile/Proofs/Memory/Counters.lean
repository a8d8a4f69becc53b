import HybridCompile.Proofs.Memory.Refusal
import Mathlib.Data.List.Infix

/-!
# HybridCompile — counters over a stretch of a history

Three of an arena's numbers are never taken back: how many reservations it granted, how many bytes
these came to, and its peak. From any state on, the first two grow by what is granted, and the peak
becomes the highest point if that is higher. This holds as long as the statistics are there at the
end of the stretch. The bytes are added in 64 bits, and nothing keeps their sum below `2 ^ 64`: in
every arena that can grant anything a request overflows it sooner or later.

* `counts_run`, `exists_isGreatest_peak_run` — the counts and the peak after a stretch.
* `peak_run_eq_iff` — when the peak stays as it is.
* `step_eq_lost_iff` — when the bytes of a request overflow their count.
* `cumulativeBytes_exact` — what the count of the bytes says, and how long.
-/

namespace HybridCompile

theorem totalBytes_append (sizes sizes' : List UInt64) :
    totalBytes (sizes ++ sizes') = totalBytes sizes + totalBytes sizes' := by
  simp [totalBytes]

namespace Ledger

variable {l l' : Ledger} {e : Event} {stats stats' : ArenaStats}

/-! ## Grants -/

/-- Counts that are there after a step were there before it, and a grant is all that moves the
reservations and the bytes. The cases are those of the transition. -/
theorem Transition.exists_counts (ht : l.Transition e l') (hstats' : l'.arena.stats? = some stats') :
    ∃ stats, l.arena.stats? = some stats ∧
      stats'.reservations.toNat = stats.reservations.toNat + e.granted?.toList.length ∧
      stats'.cumulativeBytes.toNat =
        stats.cumulativeBytes.toNat + totalBytes e.granted?.toList := by
  cases ht with
  | @granted size _ _ _ _ hcounts =>
    obtain rfl : _ = some stats' := hstats'
    obtain ⟨stats, hbefore, hadd⟩ := hcounts.exists_before
    obtain ⟨hcount, hbytes, -⟩ := ArenaStats.addReservation_eq_some_iff.mp hadd
    exact ⟨stats, hbefore, hcount, hbytes⟩
  | refused _ _ hcounts =>
    obtain rfl : _ = some stats' := hstats'
    obtain ⟨stats, hbefore, hadd⟩ := hcounts.exists_before
    rw [ArenaStats.eq_of_addRejection hadd]
    exact ⟨stats, hbefore, rfl, rfl⟩
  | returned =>
    obtain ⟨stats, hbefore, hadd⟩ := Option.bind_eq_some_iff.mp hstats'
    rw [(ArenaStats.addRelease_eq_some_iff.mp hadd).2]
    exact ⟨stats, hbefore, rfl, rfl⟩
  | lost | uncounted => cases hstats'
  | zeroSized | idle => exact ⟨stats', hstats', rfl, rfl⟩

/-- In a stretch of a history as many reservations are counted as are granted, and as many bytes. By
`holds_of_transition`, with `Transition.exists_counts` for one step. -/
theorem counts_run (l : Ledger) (steps : List Step) :
    ∀ stats', (l.run steps).arena.stats? = some stats' →
      ∃ stats, l.arena.stats? = some stats ∧
        stats'.reservations.toNat =
          stats.reservations.toNat + (grantedSizes (l.events steps)).length ∧
        stats'.cumulativeBytes.toNat =
          stats.cumulativeBytes.toNat + totalBytes (grantedSizes (l.events steps)) := by
  refine holds_of_transition (P := fun events l' => ∀ stats', l'.arena.stats? = some stats' →
    ∃ stats, l.arena.stats? = some stats ∧
      stats'.reservations.toNat = stats.reservations.toNat + (grantedSizes events).length ∧
      stats'.cumulativeBytes.toNat =
        stats.cumulativeBytes.toNat + totalBytes (grantedSizes events)) ?_ ?_ steps
  · exact fun stats' hstats' => ⟨stats', hstats', rfl, rfl⟩
  · intro events e l₁ l₂ ih ht stats' hstats'
    obtain ⟨between, hbetween, hcount, hbytes⟩ := ht.exists_counts hstats'
    obtain ⟨stats, hstats, hcount', hbytes'⟩ := ih between hbetween
    refine ⟨stats, hstats, ?_, ?_⟩
    · rw [hcount, hcount', grantedSizes_concat, List.length_append, Nat.add_assoc]
    · rw [hbytes, hbytes', grantedSizes_concat, totalBytes_append, Nat.add_assoc]

/-! ## The peak -/

section Peak

variable (device : String) (budget : MemoryBudget) (history steps : List Step)
variable (hstats : ((new device budget).run history).arena.stats? = some stats)
variable (hstats' : (((new device budget).run history).run steps).arena.stats? = some stats')

include hstats hstats'

/-- After a stretch of a history the peak is the highest point of the stretch, unless it was higher
before. The induction takes the steps of the stretch from the end. -/
theorem exists_isGreatest_peak_run :
    let l := (new device budget).run history
    ∃ highest, IsGreatest (l.liveHistory steps) highest ∧
      stats'.peakLiveBytes.toNat = max stats.peakLiveBytes.toNat highest := by
  intro l
  induction steps using List.reverseRecOn generalizing stats' with
  | nil =>
    obtain rfl := Option.some.inj (hstats.symm.trans hstats')
    have hpeak := (isGreatest_peakLiveBytes device budget history hstats).2
      ⟨history, List.prefix_refl history, rfl⟩
    refine ⟨l.arena.liveBytes.toNat, ?_, (max_eq_left hpeak).symm⟩
    rw [liveHistory_nil]
    exact isGreatest_singleton
  | append_singleton steps s ih =>
    rw [run_concat] at hstats'
    have ht := transition_step (l.run steps) s
    obtain ⟨between, hbetween⟩ := ht.exists_stats hstats'
    obtain ⟨highest, hgreatest, hpeak⟩ := ih hbetween
    -- what is reserved now is a point of the stretch so far, so the peak is not below it
    have hnow : (l.run steps).arena.liveBytes.toNat ≤ between.peakLiveBytes.toNat :=
      (hgreatest.2 ⟨steps, List.prefix_refl steps, rfl⟩).trans (hpeak ▸ le_max_right _ _)
    have haccounted := accounted_run device budget (history ++ steps)
    rw [run_append] at haccounted
    have hstep := ht.peak_eq haccounted hbetween hstats' hnow
    rw [← run_concat, hpeak, max_left_comm] at hstep
    refine ⟨max (l.run (steps ++ [s])).arena.liveBytes.toNat highest, ?_, hstep⟩
    rw [liveHistory_concat]
    exact hgreatest.insert _

theorem peak_le_peak_run : stats.peakLiveBytes.toNat ≤ stats'.peakLiveBytes.toNat := by
  obtain ⟨highest, -, hpeak⟩ :=
    exists_isGreatest_peak_run device budget history steps hstats hstats'
  rw [hpeak]
  exact le_max_left _ _

/-- The peak stays as it is exactly when nothing goes above it. -/
theorem peak_run_eq_iff :
    stats'.peakLiveBytes = stats.peakLiveBytes ↔
      ∀ point ∈ ((new device budget).run history).liveHistory steps,
        point ≤ stats.peakLiveBytes.toNat := by
  obtain ⟨highest, hgreatest, hpeak⟩ :=
    exists_isGreatest_peak_run device budget history steps hstats hstats'
  rw [← mem_upperBounds, ← isLUB_le_iff hgreatest.isLUB, ← UInt64.toNat_inj, hpeak]
  exact sup_eq_left

end Peak

/-- The highest point of a stretch is found by carrying out its beginnings. -/
theorem isGreatest_liveHistory_iff {steps : List Step} {highest : Nat} :
    IsGreatest (l.liveHistory steps) highest ↔
      let points := steps.inits.map fun p => (l.run p).arena.liveBytes.toNat
      highest ∈ points ∧ ∀ point ∈ points, point ≤ highest := by
  have hpoints : l.liveHistory steps =
      {point | point ∈ steps.inits.map fun p => (l.run p).arena.liveBytes.toNat} := by
    ext point
    simp [liveHistory, List.mem_inits]
  rw [hpoints]
  rfl

/-! ## The bytes granted -/

/-- The bytes of a request overflow their count exactly when the request fits, the statistics are
there, and what was granted comes to `2 ^ 64` with it. -/
theorem Accounted.step_eq_lost_iff {events : List Event} (h : Accounted events l) {size : UInt64}
    (hpos : size ≠ 0) (label : String) :
    (l.step (.reserve size label)).2 = .lost size ↔
      l.arena.stats? ≠ none ∧ l.arena.fits size = true ∧
        UInt64.size ≤ totalBytes (grantedSizes events) + size.toNat := by
  have hlost : (l.step (.reserve size label)).2 = .lost size ↔
      (l.arena.reserve size label).2 = .crashed ∧ l.arena.fits size = true := by
    rw [step, Ledger.reserve]
    rcases l.arena.reserve size label with ⟨arena, _ | ⟨_ | _⟩ | _⟩
    · simp
    · simp
    · simp
    · cases l.arena.fits size <;> simp
  rw [hlost, Arena.reserve_eq_crashed_iff, h.cannotCount_iff hpos, Overflows]
  constructor
  · rintro ⟨⟨-, hthere, hover⟩, hfits⟩
    exact ⟨hthere, hfits, by rwa [if_pos hfits] at hover⟩
  · rintro ⟨hthere, hfits, hover⟩
    exact ⟨⟨hpos, hthere, by rwa [if_pos hfits]⟩, hfits⟩

/-! ## Histories that overflow -/

/-- Reserve some bytes and give them back, so many times. -/
def cycles (size : UInt64) (count : Nat) : List Step :=
  (List.range count).flatMap fun number => [.reserve size "cycle", .release number]

theorem cycles_succ (size : UInt64) (count : Nat) :
    cycles size (count + 1) = cycles size count ++ [.reserve size "cycle", .release count] := by
  rw [cycles, List.range_succ, List.flatMap_append, List.flatMap_singleton]
  rfl

/-- A cycle in which something is reserved and comes back leaves the ledger with one more slot. If
nothing is lost in it, what is within the budget is granted. -/
theorem run_cycle {size : UInt64} (hpos : size ≠ 0) (hlive : l.arena.liveBytes = 0)
    (hle : size ≤ l.arena.budget.ceiling)
    (hkept : (l.step (.reserve size "cycle")).2.lost? = none) :
    let steps := [.reserve size "cycle", .release l.slots.length]
    (l.run steps).slots = l.slots ++ [none] ∧ (l.run steps).arena.liveBytes = 0 ∧
      l.events steps = [.granted size, .returned size] := by
  have hfits : l.arena.fits size = true := by
    refine decide_eq_true ?_
    rw [hlive, UInt64.toNat_zero, Nat.zero_add]
    exact UInt64.le_iff_toNat_le.mp hle
  have hcount : ¬ l.arena.CannotCount size := by
    intro hcannot
    rw [step, reserve_of_cannotCount hpos hcannot] at hkept
    simp [hfits, Event.lost?] at hkept
  obtain ⟨stats?, -, hgranted⟩ := reserve_of_fits hpos hfits hcount "cycle"
  have hheld := (get?_reserve hgranted l.slots.length).trans (if_pos rfl)
  simp only [run, events, step, hgranted, Ledger.release, hheld, List.foldl_cons, List.foldl_nil]
  refine ⟨?_, ?_, rfl⟩
  · rw [List.set_append_right _ _ (Nat.le_refl _), Nat.sub_self]
    rfl
  · rw [Arena.release, hlive, UInt64.zero_add, UInt64.sub_self]

/-- If nothing is ever lost, what is within the budget is granted in every cycle, so the bytes
granted grow without bound. Induction on the number of cycles, each by `run_cycle`. -/
theorem run_cycles (device : String) {budget : MemoryBudget} {size : UInt64} (hpos : size ≠ 0)
    (hle : size ≤ budget.ceiling)
    (hkept : ∀ steps, lostSizes ((new device budget).events steps) = []) (count : Nat) :
    let l := (new device budget).run (cycles size count)
    l.slots.length = count ∧ l.arena.liveBytes = 0 ∧
      grantedSizes ((new device budget).events (cycles size count)) =
        List.replicate count size ∧
      ((new device budget).events (cycles size count)).countP Event.isCrash = 0 := by
  intro l
  induction count with
  | zero => exact ⟨rfl, rfl, rfl, rfl⟩
  | succ count ih =>
    obtain ⟨hslots, hlive, hgranted, hcrashes⟩ := ih
    have hbudget := budget_run (new device budget) (cycles size count)
    have hnext : (((new device budget).run (cycles size count)).step
        (.reserve size "cycle")).2.lost? = none := by
      have hlost := hkept (cycles size count ++ [.reserve size "cycle"])
      rw [events_concat, lostSizes_concat, List.append_eq_nil_iff] at hlost
      exact Option.toList_eq_nil_iff.mp hlost.2
    obtain ⟨hslots', hlive', hevents⟩ := run_cycle hpos hlive (hbudget ▸ hle) hnext
    rw [hslots] at hslots' hlive' hevents
    have hl : l = ((new device budget).run (cycles size count)).run
        [.reserve size "cycle", .release count] := by rw [← run_append, ← cycles_succ]
    refine ⟨?_, ?_, ?_, ?_⟩
    · rw [hl, hslots', List.length_append, hslots]
      rfl
    · rw [hl, hlive']
    · rw [cycles_succ, events_append, hevents, grantedSizes, List.filterMap_append,
        ← grantedSizes, hgranted, List.replicate_succ']
      rfl
    · rw [cycles_succ, events_append, hevents, List.countP_append, hcrashes]
      rfl

/-- In every arena that can grant anything the count of the bytes overflows in some history. If it
never did, `run_cycles` would grant the ceiling `2 ^ 64` times over, and `cumulativeBytes` could not
count that. -/
theorem exists_lostSizes (device : String) {budget : MemoryBudget} (hpos : budget.ceiling ≠ 0) :
    ∃ steps, lostSizes ((new device budget).events steps) ≠ [] := by
  by_contra hnone
  have hkept : ∀ steps, lostSizes ((new device budget).events steps) = [] := by simpa using hnone
  -- after so many cycles their bytes would come to more than a 64-bit number
  let steps := cycles budget.ceiling UInt64.size
  obtain ⟨-, -, hgranted, hcrashes⟩ :=
    run_cycles device hpos (UInt64.le_refl _) hkept UInt64.size
  have haccounted := accounted_run device budget steps
  have hcrashes' := haccounted.crashes_eq
  rw [hcrashes] at hcrashes'
  obtain ⟨stats, hstats⟩ : ∃ stats, ((new device budget).run steps).arena.stats? = some stats :=
    Option.ne_none_iff_exists'.mp fun hnone => by rw [if_pos hnone] at hcrashes'; cases hcrashes'
  have hcounted := (haccounted.counted stats hstats).cumulative_eq
  rw [hgranted, totalBytes, List.map_replicate, List.sum_replicate_nat] at hcounted
  have hceiling : budget.ceiling.toNat ≠ 0 := fun h => hpos (UInt64.toNat_inj.mp h)
  have hle : UInt64.size ≤ UInt64.size * budget.ceiling.toNat :=
    Nat.le_mul_of_pos_right _ (Nat.pos_of_ne_zero hceiling)
  exact absurd stats.cumulativeBytes.toNat_lt (Nat.not_lt.mpr (hcounted ▸ hle))

/-- When nothing fits, nothing is lost. -/
theorem lostSizes_of_ceiling_eq_zero (device : String) {budget : MemoryBudget}
    (hzero : budget.ceiling = 0) (steps : List Step) :
    lostSizes ((new device budget).events steps) = [] := by
  refine (holds_of_transition (P := fun events l' => l'.arena.budget = budget ∧
    lostSizes events = []) ⟨rfl, rfl⟩ ?_ steps).2
  rintro events e l₁ l₂ ⟨hbudget, ih⟩ ht
  refine ⟨ht.budget_eq.trans hbudget, ?_⟩
  rw [lostSizes_concat, ih]
  cases ht with
  | @lost size stats hpos hfits =>
    -- what fits into nothing is nothing
    have hle := of_decide_eq_true hfits
    rw [hbudget, hzero, UInt64.toNat_zero] at hle
    exact absurd (UInt64.toNat_inj.mp (by rw [UInt64.toNat_zero]; omega)) hpos
  | granted | refused | uncounted | zeroSized | returned | idle => rfl

/-! ## What is counted, and what was granted -/

/-- As long as the statistics are there the bytes counted are those granted, and they never become
fewer. But an addition overflows as soon as a request is granted with which they come to `2 ^ 64`:
then the one who asks breaks down and the statistics are lost. No budget but that of nothing keeps
that from happening. -/
theorem cumulativeBytes_exact (device : String) (budget : MemoryBudget) :
    let start := new device budget
    let granted (steps : List Step) := totalBytes (grantedSizes (start.events steps))
    (∀ steps stats, (start.run steps).arena.stats? = some stats →
        stats.cumulativeBytes.toNat = granted steps) ∧
      (∀ steps s stats', (start.run (steps ++ [s])).arena.stats? = some stats' →
        ∃ stats, (start.run steps).arena.stats? = some stats ∧
          stats.cumulativeBytes ≤ stats'.cumulativeBytes) ∧
      (∀ steps size label, size ≠ 0 →
        (((start.run steps).step (.reserve size label)).2 = .lost size ↔
          (start.run steps).arena.stats? ≠ none ∧ (start.run steps).arena.fits size = true ∧
            2 ^ 64 ≤ granted steps + size.toNat)) ∧
      ((∃ steps, lostSizes (start.events steps) ≠ []) ↔ budget.ceiling ≠ 0) := by
  intro start granted
  refine ⟨fun steps stats hstats => ?_, fun steps s stats' hstats' => ?_,
    fun steps size label hpos => ?_, ?_⟩
  · exact ((accounted_run device budget steps).counted stats hstats).cumulative_eq
  · rw [run_concat] at hstats'
    obtain ⟨stats, hstats, -, hbytes⟩ :=
      (transition_step (start.run steps) s).exists_counts hstats'
    exact ⟨stats, hstats, UInt64.le_iff_toNat_le.mpr (hbytes ▸ Nat.le_add_right _ _)⟩
  · exact (accounted_run device budget steps).step_eq_lost_iff hpos label
  · refine ⟨?_, exists_lostSizes device⟩
    rintro ⟨steps, hlost⟩ hzero
    exact hlost (lostSizes_of_ceiling_eq_zero device hzero steps)

/-- Half of all that can be counted is granted and comes back. Then it is asked for again, and the
addition overflows: the bytes shown go from half to nothing. -/
theorem cumulativeBytes_overflows :
    let start := new "gpu0" .unlimited
    let half : UInt64 := 0x8000000000000000
    let steps := [.reserve half "a", .release 0]
    let later := steps ++ [.reserve half "b"]
    start.events later = [.granted half, .returned half, .lost half] ∧
      (start.run steps).arena.stats.cumulativeBytes = half ∧
      (start.run later).arena.stats.cumulativeBytes = 0 := by
  decide

end Ledger

end HybridCompile
