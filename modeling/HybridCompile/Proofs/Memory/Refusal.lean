import HybridCompile.Proofs.Memory.Accounting

/-!
# HybridCompile — what is granted and what is refused

A request that can be counted is refused exactly when it does not fit into what is left of the
budget, whatever happened before. A refusal is counted and changes nothing else, and it is not for
ever: the same request is granted as soon as enough was given back, and if it is within the budget at
all, giving everything back is enough. A request that cannot be counted is not answered.

* `Arena.reserve_of_fits`, `reserve_of_full`, `reserve_of_cannotCount` — the three ways of a request.
* `run_releaseSteps_range'` — giving back by number.
* `reserve_granted_iff`, `exists_free_run` — what is granted is what is left.
* `exists_releaseSteps_iff` — giving back makes room for all that the budget allows.
* `reserve_refused_exactly` — all together.
-/

namespace HybridCompile

namespace Arena

variable {a : Arena} {size : UInt64}

/-- What fits and can be counted is granted. -/
theorem reserve_of_fits (hpos : size ≠ 0) (hfits : a.fits size = true)
    (hcount : ¬ a.CannotCount size) (label : String) :
    ∃ stats?, Counts (·.addReservation size (a.liveBytes + size)) a.stats? stats? ∧
      a.reserve size label =
        ({ a with liveBytes := a.liveBytes + size, stats? }, .granted) := by
  have hanswers := a.answers_reserve size label
  generalize a.reserve size label = answered at hanswers ⊢
  cases hanswers with
  | zeroSized hzero => exact absurd hzero hpos
  | granted _ _ hcounts => exact ⟨_, hcounts, rfl⟩
  | lost _ _ hsome hover => exact absurd ⟨_, hsome, by rwa [if_pos hfits]⟩ hcount
  | refused _ hfull | uncounted _ hfull => exact absurd hfits hfull

/-- What does not fit is refused, if that can be counted. -/
theorem reserve_of_full (hpos : size ≠ 0) (hfull : ¬ a.fits size = true)
    (hcount : ¬ a.CannotCount size) (label : String) :
    ∃ stats?, Counts ArenaStats.addRejection a.stats? stats? ∧
      a.reserve size label = ({ a with stats? }, .refused (a.refusal size label)) := by
  have hanswers := a.answers_reserve size label
  generalize a.reserve size label = answered at hanswers ⊢
  cases hanswers with
  | zeroSized hzero => exact absurd hzero hpos
  | granted _ hfits | lost _ hfits => exact absurd hfits hfull
  | refused _ _ hcounts => exact ⟨_, hcounts, rfl⟩
  | uncounted _ _ hsome hover => exact absurd ⟨_, hsome, by rwa [if_neg hfull]⟩ hcount

/-- The refusals that are counted do not overflow with the one that is counted next. -/
theorem toNat_rejected_succ (hfull : ¬ a.fits size = true) (hcount : ¬ a.CannotCount size)
    {stats : ArenaStats} (hstats : a.stats? = some stats) :
    (stats.rejected + 1).toNat = stats.rejected.toNat + 1 := by
  obtain ⟨after, hadd⟩ : ∃ after, stats.addRejection = some after :=
    Option.ne_none_iff_exists'.mp fun hover => hcount ⟨stats, hstats, by rwa [if_neg hfull]⟩
  have hsucc := (ArenaStats.addRejection_eq_some_iff.mp hadd).1
  rwa [ArenaStats.eq_of_addRejection hadd] at hsucc

/-- What cannot be counted is taken if it fits, and then the one who asks breaks down. -/
theorem reserve_of_cannotCount (hpos : size ≠ 0) (hcount : a.CannotCount size) (label : String) :
    a.reserve size label =
      ({ a with
          liveBytes := if a.fits size = true then a.liveBytes + size else a.liveBytes
          stats? := none }, .crashed) := by
  have hcrashed := (reserve_eq_crashed_iff label).mpr ⟨hpos, hcount⟩
  have hanswers := a.answers_reserve size label
  generalize a.reserve size label = answered at hanswers hcrashed ⊢
  cases hanswers with
  | zeroSized | granted | refused => cases hcrashed
  | lost _ hfits => rw [if_pos hfits]
  | uncounted _ hfull => rw [if_neg hfull]

/-- The bytes that are left, beside those that are reserved. A refusal tells how many they are. -/
theorem exists_free (hle : a.liveBytes.toNat ≤ a.budget.ceiling.toNat) :
    ∃ free : UInt64, free.toNat + a.liveBytes.toNat = a.budget.ceiling.toNat ∧
      ∀ size label,
        a.refusal size label = .outOfMemory a.device label size free a.budget.ceiling := by
  have hle' : a.liveBytes ≤ a.budget.ceiling := UInt64.le_iff_toNat_le.mpr hle
  refine ⟨a.budget.ceiling - a.liveBytes, ?_, fun size label => ?_⟩
  · rw [UInt64.toNat_sub_of_le _ _ hle']
    exact Nat.sub_add_cancel hle
  · rw [refusal, if_pos hle']

end Arena

namespace Ledger

variable {l : Ledger} {size : UInt64}

/-! ## The answers -/

theorem reserve_zero (l : Ledger) (label : String) :
    l.reserve 0 label = (l, .refused (.zeroSized label)) :=
  rfl

/-- A request at a ledger is answered as the arena answers it. -/
theorem reserve_snd (l : Ledger) (size : UInt64) (label : String) :
    (l.reserve size label).2 = (l.arena.reserve size label).2 := by
  rw [Ledger.reserve]
  rcases l.arena.reserve size label with ⟨arena, _ | _ | _⟩ <;> rfl

theorem reserve_of_fits (hpos : size ≠ 0) (hfits : l.arena.fits size = true)
    (hcount : ¬ l.arena.CannotCount size) (label : String) :
    ∃ stats?,
      Arena.Counts (·.addReservation size (l.arena.liveBytes + size)) l.arena.stats? stats? ∧
      l.reserve size label =
        (⟨{ l.arena with liveBytes := l.arena.liveBytes + size, stats? },
          l.slots ++ [some ⟨label, size⟩]⟩, .granted) := by
  obtain ⟨stats?, hcounts, hr⟩ := Arena.reserve_of_fits hpos hfits hcount label
  exact ⟨stats?, hcounts, by rw [Ledger.reserve, hr]⟩

theorem reserve_of_cannotCount (hpos : size ≠ 0) (hcount : l.arena.CannotCount size)
    (label : String) :
    l.reserve size label =
      (⟨{ l.arena with
          liveBytes :=
            if l.arena.fits size = true then l.arena.liveBytes + size else l.arena.liveBytes
          stats? := none }, l.slots⟩, .crashed) := by
  rw [Ledger.reserve, Arena.reserve_of_cannotCount hpos hcount]

/-- A refusal is counted, if the statistics are there, and changes nothing else:
`Arena.reserve_of_full` in the words of a ledger. -/
theorem reserve_of_full (hpos : size ≠ 0) (hfull : ¬ l.arena.fits size = true)
    (hcount : ¬ l.arena.CannotCount size) (label : String) :
    l.reserve size label =
      ({ l with arena.stats? := l.arena.stats?.map fun stats =>
          { stats with rejected := stats.rejected + 1 } },
        .refused (l.arena.refusal size label)) := by
  obtain ⟨stats?, hcounts, hr⟩ := Arena.reserve_of_full hpos hfull hcount label
  have hstats : stats? = l.arena.stats?.map fun stats =>
      { stats with rejected := stats.rejected + 1 } := by
    cases hbefore : l.arena.stats? with
    | none =>
      rw [hbefore] at hcounts
      exact hcounts.eq_none_iff.mpr rfl
    | some stats =>
      rw [hbefore] at hcounts
      obtain ⟨after, rfl, hadd⟩ := hcounts.exists_after
      exact congrArg some (ArenaStats.eq_of_addRejection hadd)
  rw [Ledger.reserve, hr, hstats]

/-- Something is granted exactly when it fits and can be counted, in every state of a ledger. The
cases are the three ways of a request. -/
theorem reserve_granted_iff (hpos : size ≠ 0) (label : String) :
    (l.reserve size label).2 = .granted ↔
      l.arena.liveBytes.toNat + size.toNat ≤ l.arena.budget.ceiling.toNat ∧
        ¬ l.arena.CannotCount size := by
  by_cases hcount : l.arena.CannotCount size
  · rw [reserve_of_cannotCount hpos hcount]
    exact iff_of_false (fun h => (by cases h)) fun h => h.2 hcount
  · by_cases hfits : l.arena.fits size = true
    · obtain ⟨_, -, hr⟩ := reserve_of_fits hpos hfits hcount label
      rw [hr]
      exact iff_of_true rfl ⟨of_decide_eq_true hfits, hcount⟩
    · rw [reserve_of_full hpos hfits hcount]
      exact iff_of_false (fun h => (by cases h)) fun h => hfits (decide_eq_true h.1)

/-- Asking for memory as a step of a history, and asking for it. -/
theorem step_reserve (l : Ledger) (size : UInt64) (label : String) :
    (l.step (.reserve size label)).1 = (l.reserve size label).1 := by
  rw [step]
  rcases l.reserve size label with ⟨l', _ | ⟨_ | _⟩ | _⟩ <;> rfl

/-! ## Giving back -/

theorem release_held (arena : Arena) (front rest : List (Option Reservation)) (r : Reservation) :
    release ⟨arena, front ++ some r :: rest⟩ front.length =
      ⟨arena.release r.size, front ++ none :: rest⟩ := by
  have hheld : get? ⟨arena, front ++ some r :: rest⟩ front.length = some r := by simp [get?]
  rw [release, hheld]
  simp

theorem release_not_held (arena : Arena) (front rest : List (Option Reservation)) :
    release ⟨arena, front ++ none :: rest⟩ front.length = ⟨arena, front ++ none :: rest⟩ := by
  have hnone : get? ⟨arena, front ++ none :: rest⟩ front.length = none := by simp [get?]
  rw [release, hnone]

/-- Give reservations back, by their numbers. -/
def releaseSteps (numbers : List Nat) : List Step := numbers.map .release

/-- The numbers from one on are given back in order, of which only those that are held count.
Induction on the slots behind `front`, over all arenas and fronts. -/
theorem run_releaseSteps_range' (given : List (Option Reservation)) (arena : Arena)
    (front : List (Option Reservation)) :
    run ⟨arena, front ++ given⟩ (releaseSteps (List.range' front.length given.length)) =
      ⟨(given.filterMap id).foldl (fun arena r => arena.release r.size) arena,
        front ++ given.map fun _ => none⟩ := by
  induction given generalizing arena front with
  | nil => rfl
  | cons slot rest ih =>
    show run (release ⟨arena, front ++ slot :: rest⟩ front.length)
      (releaseSteps (List.range' (front.length + 1) rest.length)) = _
    -- the slot is empty now, and belongs to the front
    have hlater (arena : Arena) := ih arena (front ++ [none])
    simp only [List.length_append, List.length_singleton, List.append_assoc,
      List.singleton_append] at hlater
    cases slot with
    | none =>
      rw [release_not_held, hlater]
      rfl
    | some r =>
      rw [release_held, hlater]
      rfl

theorem run_releaseSteps_range (l : Ledger) :
    l.run (releaseSteps (List.range l.slots.length)) = l.releaseAll := by
  rw [List.range_eq_range']
  exact run_releaseSteps_range' l.slots l.arena []

theorem held_releaseAll (l : Ledger) : l.releaseAll.held = [] := by
  simp [held, releaseAll]

theorem Transition.device_eq {l' : Ledger} {e : Event} (ht : l.Transition e l') :
    l'.arena.device = l.arena.device := by
  cases ht <;> rfl

theorem device_run (l : Ledger) (steps : List Step) :
    (l.run steps).arena.device = l.arena.device :=
  holds_of_transition (P := fun _ l' => l'.arena.device = l.arena.device) rfl
    (fun h ht => ht.device_eq.trans h) steps

/-! ## Every state of a history -/

section History

variable (device : String) (budget : MemoryBudget) (steps : List Step) (label : String)

/-- What is granted, if it can be counted, is what is left. -/
theorem exists_free_run (hpos : size ≠ 0) :
    let l := (new device budget).run steps
    ∃ free : UInt64, free.toNat + l.arena.liveBytes.toNat = budget.ceiling.toNat ∧
      ((l.reserve size label).2 = .granted ↔ size ≤ free ∧ ¬ l.arena.CannotCount size) := by
  intro l
  have hbudget : l.arena.budget = budget := budget_run (new device budget) steps
  obtain ⟨free, hfree, -⟩ :=
    Arena.exists_free (a := l.arena) (accounted_run device budget steps).live_le
  rw [hbudget] at hfree
  have hle : l.arena.liveBytes.toNat + size.toNat ≤ budget.ceiling.toNat ↔ size ≤ free := by
    rw [UInt64.le_iff_toNat_le]
    omega
  exact ⟨free, hfree, by rw [reserve_granted_iff hpos, hbudget, hle]⟩

/-- Giving back grants nothing, refuses nothing, and takes nobody down. Induction on the numbers. -/
theorem events_releaseSteps (l : Ledger) (numbers : List Nat) :
    ∀ e ∈ l.events (releaseSteps numbers),
      e.granted? = none ∧ e.lost? = none ∧ e.isCrash = false := by
  induction numbers generalizing l with
  | nil => exact fun e he => (by cases he)
  | cons number rest ih =>
    have hfirst : ∀ e, e = (l.step (.release number)).2 →
        e.granted? = none ∧ e.lost? = none ∧ e.isCrash = false := by
      rintro e rfl
      rw [step]
      cases l.get? number <;> exact ⟨rfl, rfl, rfl⟩
    exact List.forall_mem_cons.mpr ⟨hfirst _ rfl, ih _⟩

/-- While reservations are given back the sizes granted and lost stay as they are, and so does
whether the statistics are there. -/
theorem run_releaseSteps_kept (numbers : List Nat) :
    let start := new device budget
    let later := steps ++ releaseSteps numbers
    grantedSizes (start.events later) = grantedSizes (start.events steps) ∧
      lostSizes (start.events later) = lostSizes (start.events steps) ∧
      ((start.run later).arena.stats? = none ↔ (start.run steps).arena.stats? = none) := by
  intro start later
  have hreleases := (start.run steps).events_releaseSteps numbers
  have hgranted : ((start.run steps).events (releaseSteps numbers)).filterMap Event.granted? = [] :=
    List.filterMap_eq_nil_iff.mpr fun e he => (hreleases e he).1
  have hlost : ((start.run steps).events (releaseSteps numbers)).filterMap Event.lost? = [] :=
    List.filterMap_eq_nil_iff.mpr fun e he => (hreleases e he).2.1
  have hcrashes : ((start.run steps).events (releaseSteps numbers)).countP Event.isCrash = 0 :=
    List.countP_eq_zero.mpr fun e he => by rw [(hreleases e he).2.2]; exact Bool.false_ne_true
  have hbefore := (accounted_run device budget steps).crashes_eq
  have hafter := (accounted_run device budget later).crashes_eq
  rw [events_append, List.countP_append, hcrashes, Nat.add_zero, hbefore] at hafter
  refine ⟨?_, ?_, ?_⟩
  · rw [grantedSizes, events_append, List.filterMap_append, hgranted, List.append_nil]
    rfl
  · rw [lostSizes, events_append, List.filterMap_append, hlost, List.append_nil]
    rfl
  · split at hafter <;> split at hafter <;> simp_all [start]

/-- What is within the budget, beside the bytes that are lost, is granted once enough is given back,
if the bytes granted so far leave room in their count. Giving everything back is enough if anything
is, since `run_releaseSteps_kept` says that this changes nothing else. -/
theorem exists_releaseSteps_iff (hpos : size ≠ 0) :
    let l := (new device budget).run steps
    let events := (new device budget).events steps
    (∃ numbers, ((l.run (releaseSteps numbers)).reserve size label).2 = .granted) ↔
      totalBytes (lostSizes events) + size.toNat ≤ budget.ceiling.toNat ∧
        (l.arena.stats? = none ∨ totalBytes (grantedSizes events) + size.toNat < UInt64.size) := by
  intro l events
  -- what is granted after some releases, in terms of what was before them
  have hanswer : ∀ numbers,
      ((l.run (releaseSteps numbers)).reserve size label).2 = .granted ↔
        (l.run (releaseSteps numbers)).arena.liveBytes.toNat + size.toNat ≤ budget.ceiling.toNat ∧
          (l.arena.stats? = none ∨
            totalBytes (grantedSizes events) + size.toNat < UInt64.size) := by
    intro numbers
    obtain ⟨hgranted, -, hstats⟩ := run_releaseSteps_kept device budget steps numbers
    have haccounted := accounted_run device budget (steps ++ releaseSteps numbers)
    have hbudget := budget_run (new device budget) (steps ++ releaseSteps numbers)
    rw [run_append] at haccounted hbudget hstats
    rw [reserve_granted_iff hpos, haccounted.cannotCount_iff hpos, hbudget]
    refine and_congr_right fun hle => ?_
    have hfits : (l.run (releaseSteps numbers)).arena.fits size = true := by
      refine decide_eq_true ?_
      rwa [hbudget]
    rw [Overflows, if_pos hfits, hgranted, not_and_or, not_not, hstats, Nat.not_le]
  have hlive : ∀ numbers, (l.run (releaseSteps numbers)).arena.liveBytes.toNat =
      totalBytes (heldSizes (l.run (releaseSteps numbers)).slots) +
        totalBytes (lostSizes events) := by
    intro numbers
    have haccounted := accounted_run device budget (steps ++ releaseSteps numbers)
    rw [← (run_releaseSteps_kept device budget steps numbers).2.1, ← run_append]
    exact haccounted.live_eq
  simp only [hanswer]
  constructor
  · rintro ⟨numbers, hle, hcounts⟩
    rw [hlive] at hle
    exact ⟨by omega, hcounts⟩
  · rintro ⟨hle, hcounts⟩
    refine ⟨List.range l.slots.length, ?_, hcounts⟩
    -- with nothing held, only what is lost is reserved
    have hnothing : totalBytes (heldSizes (l.run
        (releaseSteps (List.range l.slots.length))).slots) = 0 := by
      rw [run_releaseSteps_range]
      exact congrArg (fun held => totalBytes (held.map Reservation.size)) (held_releaseAll l)
    rw [hlive, hnothing, Nat.zero_add]
    exact hle

/-- The same once the request was refused. The refusal is one more step of the history, and with it
nothing more is granted or lost. -/
theorem exists_releaseSteps_refused_iff (hpos : size ≠ 0) {refused : Ledger} :
    let l := (new device budget).run steps
    let events := (new device budget).events steps
    l.reserve size label = (refused, .refused (l.arena.refusal size label)) →
    (refused.arena.stats? = none ↔ l.arena.stats? = none) →
    ((∃ numbers, ((refused.run (releaseSteps numbers)).reserve size label).2 = .granted) ↔
      totalBytes (lostSizes events) + size.toNat ≤ budget.ceiling.toNat ∧
        (l.arena.stats? = none ∨
          totalBytes (grantedSizes events) + size.toNat < UInt64.size)) := by
  intro l events hanswer hthere
  have hrefused : (new device budget).run (steps ++ [.reserve size label]) = refused := by
    rw [run_concat, step_reserve, hanswer]
  have hevent : (((new device budget).run steps).step (.reserve size label)).2 = .refused := by
    rw [step, hanswer]
    rfl
  have hlost : lostSizes (events ++ [.refused]) = lostSizes events := by simp [Event.lost?]
  have hgranted : grantedSizes (events ++ [.refused]) = grantedSizes events := by
    simp [Event.granted?]
  have hiff := exists_releaseSteps_iff device budget (steps ++ [.reserve size label]) label hpos
  dsimp only at hiff
  rwa [hrefused, events_concat, hevent, hlost, hgranted, hthere] at hiff

end History

/-! ## The rule -/

/-- After any history nothing is granted for nothing. A request whose counting overflows takes down
the one who asks, and what fits stays taken. Any other is granted exactly when it fits, and a refusal
tells what is left and is only counted. Whatever happens then, the same request is granted as soon as
enough is left, if it can be counted; and if it is within the budget, enough can be given back. -/
theorem reserve_refused_exactly (device : String) (budget : MemoryBudget) (history : List Step)
    (size : UInt64) (label : String) :
    let l := (new device budget).run history
    let events := (new device budget).events history
    let limit := budget.ceiling.toNat
    let live := l.arena.liveBytes.toNat
    l.reserve 0 label = (l, .refused (.zeroSized label)) ∧
      (size ≠ 0 → Overflows events l size →
        ∃ l', l.reserve size label = (l', .crashed) ∧ l'.slots = l.slots ∧
          l'.arena.stats? = none ∧
          l'.arena.liveBytes.toNat =
            if live + size.toNat ≤ limit then live + size.toNat else live) ∧
      (size ≠ 0 → ¬ Overflows events l size → live + size.toNat ≤ limit →
        ∃ l', l.reserve size label = (l', .granted) ∧
          l'.arena.liveBytes.toNat = live + size.toNat) ∧
      (size ≠ 0 → ¬ Overflows events l size → limit < live + size.toNat →
        let refused : Ledger := { l with
          arena.stats? := l.arena.stats?.map fun stats =>
            { stats with rejected := stats.rejected + 1 } }
        (∃ available : UInt64, available.toNat + live = limit ∧ available < size ∧
          l.reserve size label =
            (refused, .refused (.outOfMemory device label size available budget.ceiling))) ∧
        (∀ stats, l.arena.stats? = some stats →
          (stats.rejected + 1).toNat = stats.rejected.toNat + 1) ∧
        (∀ later, ∃ available : UInt64,
          let l' := refused.run later
          available.toNat + l'.arena.liveBytes.toNat = limit ∧
            ((l'.reserve size label).2 = .granted ↔
              size ≤ available ∧ ¬ l'.arena.CannotCount size)) ∧
        ((∃ numbers, ((refused.run (releaseSteps numbers)).reserve size label).2 = .granted) ↔
          totalBytes (lostSizes events) + size.toNat ≤ limit ∧
            (l.arena.stats? = none ∨
              totalBytes (grantedSizes events) + size.toNat < UInt64.size))) := by
  intro l events limit live
  have hbudget : l.arena.budget = budget := budget_run (new device budget) history
  have haccounted : Accounted events l := accounted_run device budget history
  have hfits_iff : l.arena.fits size = true ↔ live + size.toNat ≤ limit := by
    rw [Arena.fits, decide_eq_true_iff, hbudget]
  refine ⟨reserve_zero l label, fun hpos hover => ?_, fun hpos hcounts hle => ?_,
    fun hpos hcounts hlt => ?_⟩
  · rw [← haccounted.cannotCount_iff hpos] at hover
    refine ⟨_, reserve_of_cannotCount hpos hover label, rfl, rfl, ?_⟩
    by_cases hfits : l.arena.fits size = true
    · simp only [if_pos hfits, if_pos (hfits_iff.mp hfits)]
      exact Arena.toNat_liveBytes_add hfits
    · simp only [if_neg hfits, if_neg (mt hfits_iff.mpr hfits)]
      rfl
  · rw [← haccounted.cannotCount_iff hpos] at hcounts
    have hfits := hfits_iff.mpr hle
    obtain ⟨_, -, hanswer⟩ := reserve_of_fits hpos hfits hcounts label
    exact ⟨_, hanswer, Arena.toNat_liveBytes_add hfits⟩
  · intro refused
    have hfull : ¬ l.arena.fits size = true := fun hfits => by
      have hle := hfits_iff.mp hfits
      omega
    rw [← haccounted.cannotCount_iff hpos] at hcounts
    have hanswer := reserve_of_full hpos hfull hcounts label
    refine ⟨?_, fun stats hstats => Arena.toNat_rejected_succ hfull hcounts hstats,
      fun later => ?_, ?_⟩
    · obtain ⟨available, havailable, hrefusal⟩ :=
        Arena.exists_free (a := l.arena) haccounted.live_le
      rw [hbudget] at havailable
      refine ⟨available, havailable, UInt64.lt_iff_toNat_lt.mpr (by omega), ?_⟩
      rw [hanswer, hrefusal, hbudget, device_run]
      rfl
    · -- the refusal is a step of the history, so what holds after every history holds after it
      have hrefused : refused = (new device budget).run (history ++ [.reserve size label]) := by
        rw [run_concat, step_reserve, hanswer]
      rw [hrefused, ← run_append]
      exact exists_free_run device budget _ label hpos
    · exact exists_releaseSteps_refused_iff device budget history label hpos hanswer
        Option.map_eq_none_iff

/-- Ninety of a hundred bytes are held. Fifty more do not fit, until the sixty are given back. -/
theorem reserve_refused_exactly_hundred :
    let l := (new "gpu0" (.limited 100)).run [.reserve 60 "a", .reserve 30 "b"]
    let refused : Ledger := { l with arena.stats? := some ⟨2, 0, 1, 90, 90⟩ }
    (∃ available : UInt64, available.toNat + 90 = 100 ∧ available < 50 ∧
      l.reserve 50 "c" = (refused, .refused (.outOfMemory "gpu0" "c" 50 available 100))) ∧
      (refused.reserve 50 "c").2 ≠ .granted ∧
      ((refused.run (releaseSteps [0])).reserve 50 "c").2 = .granted ∧
      ∃ l', (refused.run (releaseSteps [0])).reserve 50 "c" = (l', .granted) ∧
        l'.arena.liveBytes.toNat = 30 + 50 := by
  intro l refused
  obtain ⟨-, -, -, hrefusal⟩ := reserve_refused_exactly "gpu0" (.limited 100)
    [.reserve 60 "a", .reserve 30 "b"] 50 "c"
  obtain ⟨hanswer, -, hagain, -⟩ := hrefusal (by decide) (by decide) (by decide)
  obtain ⟨-, -, hgranted, -⟩ := reserve_refused_exactly "gpu0" (.limited 100)
    [.reserve 60 "a", .reserve 30 "b", .reserve 50 "c", .release 0] 50 "c"
  obtain ⟨available, havailable, hiff⟩ := hagain (releaseSteps [0])
  refine ⟨hanswer, by decide, hiff.mpr ⟨?_, by decide⟩,
    hgranted (by decide) (by decide) (by decide)⟩
  have hlive : (refused.run (releaseSteps [0])).arena.liveBytes.toNat = 30 := by decide
  have hsum : available.toNat + 30 = 100 := hlive ▸ havailable
  exact UInt64.le_iff_toNat_le.mpr (show 50 ≤ available.toNat by omega)

/-- The whole budget is granted and comes back. Then it fits again, but it cannot be counted: the one
who asks breaks down, and it stays taken. -/
theorem reserve_fits_crashed :
    let half : UInt64 := 0x8000000000000000
    let l := (new "gpu0" (.limited half)).run [.reserve half "a", .release 0]
    l.arena.liveBytes.toNat + half.toNat ≤ (MemoryBudget.limited half).ceiling.toNat ∧
      (l.reserve half "b").2 = .crashed ∧ (l.reserve half "b").1.arena.liveBytes = half := by
  decide

end Ledger

end HybridCompile
