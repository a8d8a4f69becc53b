import HybridCompile.Proofs.Engine.Builds
import HybridCompile.Proofs.Engine.Steps
import HybridCompile.Proofs.Memory.Accounting
import HybridCompile.Proofs.Partition.Placement

/-!
# HybridCompile — what a build leaves behind

A backend may reserve what it likes, keep it or give it back, and stop wherever it likes. All the
while the arena holds what it held before the build and what the build keeps, so once the context is
closed the arena is as it was. The one exception is a build that breaks down in a request that the
arena cannot count; it loses the arena's statistics. What a build may use up besides is the
calibrator's data; work that calibrates last does so only when nothing can fail any more.

* `Arena.LosesStats` — the statistics went between two arenas.
* `BuildContext.Balanced` — the invariant; `Balanced.step`, `Balanced.close`.
* `Work.CalibratesLast` — a build that fails leaves the calibrator alone.
* `buildIn_restores` — both, for every build.
-/

namespace HybridCompile

/-! ## What is outstanding -/

/-- So many of the reservations that were counted are not counted as given back. -/
def ArenaStats.Outstanding (stats : ArenaStats) (count : Nat) : Prop :=
  stats.reservations.toNat = stats.releases.toNat + count

namespace ArenaStats.Outstanding

variable {stats stats' : ArenaStats} {count : Nat}

/-- The count that is shown is the number of reservations outstanding; the subtraction does not
wrap. -/
theorem toNat_outstanding (h : stats.Outstanding count) : stats.outstanding.toNat = count := by
  have hle : stats.releases ≤ stats.reservations :=
    UInt64.le_iff_toNat_le.mpr (h ▸ Nat.le_add_right _ _)
  rw [outstanding, UInt64.toNat_sub_of_le _ _ hle, h, Nat.add_sub_cancel_left]

theorem addReservation {size live : UInt64} (h : stats.Outstanding count)
    (hadd : stats.addReservation size live = some stats') : stats'.Outstanding (count + 1) := by
  obtain ⟨hcount, -, heq⟩ := addReservation_eq_some_iff.mp hadd
  show stats'.reservations.toNat = stats'.releases.toNat + (count + 1)
  rw [hcount, h, heq, Nat.add_assoc]

theorem addRejection (h : stats.Outstanding count) (hadd : stats.addRejection = some stats') :
    stats'.Outstanding count := by
  rw [eq_of_addRejection hadd]
  exact h

/-- What is outstanding can be given back: the releases are fewer than the reservations, so their
count does not overflow. -/
theorem exists_addRelease (h : stats.Outstanding (count + 1)) :
    ∃ stats', stats.addRelease = some stats' ∧ stats'.Outstanding count := by
  have hlt := stats.reservations.toNat_lt
  have hcount : stats.reservations.toNat = stats.releases.toNat + (count + 1) := h
  cases hadd : stats.addRelease with
  | none =>
    rw [addRelease_eq_none_iff, UInt64.size] at hadd
    omega
  | some stats' =>
    obtain ⟨hreleases, heq⟩ := addRelease_eq_some_iff.mp hadd
    refine ⟨stats', rfl, ?_⟩
    show stats'.reservations.toNat = stats'.releases.toNat + count
    rw [hreleases, heq, hcount]
    omega

end ArenaStats.Outstanding

/-- After every history what is outstanding are the reservations held. -/
theorem Ledger.outstanding_run (device : String) (memory : MemoryBudget) (history : List Step) :
    let l := (Ledger.new device memory).run history
    ∀ stats ∈ l.arena.stats?, stats.Outstanding l.held.length := by
  intro l stats hstats
  have haccounted := accounted_run device memory history
  have hcounted := haccounted.counted stats hstats
  rw [ArenaStats.Outstanding, hcounted.reservations_eq, hcounted.releases_eq, haccounted.length_eq]

/-- The statistics were there before, and are not there any more. -/
def Arena.LosesStats (before after : Arena) : Prop := before.stats? ≠ none ∧ after.stats? = none

theorem Arena.not_losesStats {before after : Arena} {stats : ArenaStats}
    (hstats : after.stats? = some stats) : ¬ before.LosesStats after := by
  rintro ⟨-, hnone⟩
  rw [hstats] at hnone
  cases hnone

/-! ## The bytes that a context keeps -/

section Release

variable (held : List Reservation) {arena : Arena}

/-- Giving back all that is held takes exactly its bytes off. Induction on what is held, over all
arenas that have it on top. -/
theorem liveBytes_release_all {bytes : Nat}
    (hlive : arena.liveBytes.toNat = bytes + totalBytes (held.map Reservation.size)) :
    (held.foldl (fun arena r => arena.release r.size) arena).liveBytes.toNat = bytes := by
  induction held generalizing arena with
  | nil => exact hlive
  | cons r rest ih =>
    rw [List.map_cons, totalBytes_cons] at hlive
    -- The first size is part of what is live, so it is taken off without wrapping.
    have hrelease : (arena.release r.size).liveBytes.toNat = arena.liveBytes.toNat - r.size.toNat :=
      Arena.toNat_liveBytes_release (by omega)
    have hrest : (arena.release r.size).liveBytes.toNat =
        bytes + totalBytes (rest.map Reservation.size) := by omega
    exact ih hrest

/-- Giving back what is outstanding leaves the statistics there, and the rest outstanding. Induction
on the reservations `held`, over all arenas and counts. -/
theorem stats?_release_all {stats : ArenaStats} {count : Nat} (hstats : arena.stats? = some stats)
    (hcount : stats.Outstanding (count + held.length)) :
    ∃ releases,
      (held.foldl (fun arena r => arena.release r.size) arena).stats? =
          some { stats with releases } ∧
        ArenaStats.Outstanding { stats with releases } count := by
  induction held generalizing arena stats with
  | nil => exact ⟨stats.releases, hstats, hcount⟩
  | cons r rest ih =>
    obtain ⟨stats', hadd, hcount'⟩ := ArenaStats.Outstanding.exists_addRelease hcount
    have hrelease : (arena.release r.size).stats? = some stats' := by
      rw [Arena.release, hstats]
      exact hadd
    obtain ⟨releases, hrest, hcount''⟩ := ih hrelease hcount'
    rw [(ArenaStats.addRelease_eq_some_iff.mp hadd).2] at hrest hcount''
    exact ⟨releases, hrest, hcount''⟩

/-- Without statistics, giving back leaves none. Induction on what is held. -/
theorem stats?_release_all_of_none (hstats : arena.stats? = none) :
    (held.foldl (fun arena r => arena.release r.size) arena).stats? = none := by
  induction held generalizing arena with
  | nil => exact hstats
  | cons r rest ih =>
    have hrelease : (arena.release r.size).stats? = none := by
      rw [Arena.release, hstats]
      rfl
    exact ih hrelease

end Release

namespace BuildContext

/-- Over what was reserved `before` the build, the arena holds what the context keeps, and counts it
as outstanding. Bytes that nobody holds stayed behind only if the statistics were lost. -/
structure Balanced (before : Arena) (c : BuildContext) : Prop where
  exists_lost : ∃ lost, c.arena.liveBytes.toNat =
      before.liveBytes.toNat + totalBytes (c.held.map Reservation.size) + lost ∧
    (lost = 0 ∨ before.LosesStats c.arena)
  counts : ∀ stats' ∈ c.arena.stats?, ∃ stats ∈ before.stats?, ∃ count,
    stats.Outstanding count ∧ stats'.Outstanding (count + c.held.length)

variable {before : Arena} {c : BuildContext}

theorem balanced_new {count : Nat} (hcount : ∀ stats ∈ before.stats?, stats.Outstanding count)
    (region : Nat) (budget : BuildBudget) (signal : Bool) :
    Balanced before (new region before budget signal) :=
  ⟨⟨0, rfl, .inl rfl⟩, fun stats hstats => ⟨stats, hstats, count, hcount stats hstats,
    hcount stats hstats⟩⟩

/-- While the statistics are there nothing stayed behind. -/
theorem Balanced.live_eq (h : c.Balanced before) (hkept : ¬ before.LosesStats c.arena) :
    c.arena.liveBytes.toNat =
      before.liveBytes.toNat + totalBytes (c.held.map Reservation.size) := by
  obtain ⟨lost, hlive, hlost⟩ := h.exists_lost
  rw [hlive, hlost.resolve_right hkept, Nat.add_zero]

/-- Statistics that can still be lost were there before. -/
theorem Balanced.losesStats (h : c.Balanced before) {stats : ArenaStats} {after : Arena}
    (hstats : c.arena.stats? = some stats) (hafter : after.stats? = none) :
    before.LosesStats after := by
  obtain ⟨_, hbefore, -⟩ := h.counts stats hstats
  exact ⟨by rw [Option.mem_def.mp hbefore]; simp, hafter⟩

section Granted

variable {size : UInt64} {stats? : Option ArenaStats}

/-- What is granted is outstanding, beside all that was. -/
theorem Balanced.counts_granted (h : c.Balanced before)
    (hcounts : Arena.Counts (·.addReservation size (c.arena.liveBytes + size)) c.arena.stats?
      stats?) :
    ∀ stats' ∈ stats?, ∃ stats ∈ before.stats?, ∃ count,
      stats.Outstanding count ∧ stats'.Outstanding (count + c.held.length + 1) := by
  rintro stats' rfl
  obtain ⟨between, hbetween, hstep⟩ := hcounts.exists_before
  obtain ⟨stats, hstats, count, hcount, hcount'⟩ := h.counts between hbetween
  exact ⟨stats, hstats, count, hcount, hcount'.addReservation hstep⟩

/-- What is granted and kept is one more of the reservations that the context holds. -/
theorem Balanced.grant_kept (h : c.Balanced before) (hfits : c.arena.fits size = true)
    (hcounts : Arena.Counts (·.addReservation size (c.arena.liveBytes + size)) c.arena.stats?
      stats?) (label : String) :
    Balanced before { c with
      arena := { c.arena with liveBytes := c.arena.liveBytes + size, stats? }
      held := c.held ++ [⟨label, size⟩] } := by
  obtain ⟨lost, hlive, hlost⟩ := h.exists_lost
  have hadd := Arena.toNat_liveBytes_add hfits
  refine ⟨⟨lost, ?_, hlost.imp_right fun hloses => ⟨hloses.1, hcounts.eq_none_iff.mpr hloses.2⟩⟩,
    fun stats' hstats' => ?_⟩
  · simp only [List.map_append, List.map_singleton, totalBytes_concat]
    omega
  · obtain ⟨stats, hstats, count, hcount, hcount'⟩ := h.counts_granted hcounts stats' hstats'
    refine ⟨stats, hstats, count, hcount, ?_⟩
    simp only [List.length_append, List.length_singleton, ← Nat.add_assoc]
    exact hcount'

/-- What is granted and comes back at once leaves what was there. That it comes back is counted, as
what was granted is outstanding. -/
theorem Balanced.grant_returned (h : c.Balanced before)
    (hcounts : Arena.Counts (·.addReservation size (c.arena.liveBytes + size)) c.arena.stats?
      stats?) :
    Balanced before { c with
      arena := Arena.release
        { c.arena with liveBytes := c.arena.liveBytes + size, stats? } size } := by
  obtain ⟨lost, hlive, hlost⟩ := h.exists_lost
  refine ⟨⟨lost, ?_, hlost.imp_right fun hloses => ⟨hloses.1, ?_⟩⟩, fun stats' hstats' => ?_⟩
  · show (c.arena.liveBytes + size - size).toNat = _
    rw [UInt64.add_sub_cancel]
    exact hlive
  · show stats?.bind ArenaStats.addRelease = none
    rw [hcounts.eq_none_iff.mpr hloses.2]
    rfl
  · obtain ⟨between, hbetween, hrelease⟩ := Option.bind_eq_some_iff.mp hstats'
    obtain ⟨stats, hstats, count, hcount, hcount'⟩ := h.counts_granted hcounts between hbetween
    obtain ⟨stats'', hrelease', hcount''⟩ := hcount'.exists_addRelease
    obtain rfl := Option.some.inj (hrelease.symm.trans hrelease')
    exact ⟨stats, hstats, count, hcount, hcount''⟩

end Granted

/-- A request keeps the balance, in each of the ways in which the arena `Arena.Answers` it. What is
lost if it cannot be counted are its own bytes. -/
theorem Balanced.reserve (h : c.Balanced before) (size : UInt64) (label : String) (keep : Bool) :
    (c.reserve size label keep).1.Balanced before := by
  unfold BuildContext.reserve
  have hanswers := c.arena.answers_reserve size label
  generalize c.arena.reserve size label = answered at hanswers ⊢
  cases hanswers with
  | zeroSized hzero => exact h
  | granted hpos hfits hcounts =>
    cases keep with
    | true => exact h.grant_kept hfits hcounts label
    | false => exact h.grant_returned hcounts
  | @lost stats hpos hfits hsome hover =>
    have hlive := h.live_eq (Arena.not_losesStats hsome)
    have hadd := Arena.toNat_liveBytes_add hfits
    refine ⟨⟨size.toNat, hadd.trans (by rw [hlive]), .inr (h.losesStats hsome rfl)⟩, ?_⟩
    exact fun stats' hstats' => by cases hstats'
  | @refused stats? hpos hfull hcounts =>
    obtain ⟨lost, hlive, hlost⟩ := h.exists_lost
    refine ⟨⟨lost, hlive, hlost.imp_right fun hloses =>
      ⟨hloses.1, hcounts.eq_none_iff.mpr hloses.2⟩⟩, ?_⟩
    rintro stats' rfl
    obtain ⟨between, hbetween, hstep⟩ := hcounts.exists_before
    obtain ⟨stats, hstats, count, hcount, hcount'⟩ := h.counts between hbetween
    exact ⟨stats, hstats, count, hcount, hcount'.addRejection hstep⟩
  | @uncounted stats hpos hfull hsome hover =>
    have hlive := h.live_eq (Arena.not_losesStats hsome)
    refine ⟨⟨0, hlive, .inl rfl⟩, ?_⟩
    exact fun stats' hstats' => by cases hstats'

/-- Whoever is answered has not lost the statistics: they can be lost by a request alone, and one
that loses them is answered by `crashed`. By cases on `Arena.answers_reserve`. -/
theorem Balanced.eq_crashed_of_losesStats (h : c.Balanced before) {size : UInt64} {label : String}
    {keep : Bool} (hkept : ¬ before.LosesStats c.arena)
    (hloses : before.LosesStats (c.reserve size label keep).1.arena) :
    (c.reserve size label keep).2 = .crashed := by
  -- they were there before the request, or `before` had none to lose
  obtain ⟨stats, hstats⟩ : ∃ stats, c.arena.stats? = some stats :=
    Option.ne_none_iff_exists'.mp fun hnone => hkept ⟨hloses.1, hnone⟩
  have hbalanced := h.reserve size label keep
  obtain ⟨hthere, hgone⟩ := hloses
  revert hbalanced hgone
  unfold BuildContext.reserve
  have hanswers := c.arena.answers_reserve size label
  generalize c.arena.reserve size label = answered at hanswers ⊢
  intro hbalanced hgone
  cases hanswers with
  | zeroSized hzero => exact absurd ⟨hthere, hgone⟩ hkept
  | lost | uncounted => rfl
  | @granted stats? hpos hfits hcounts =>
    rw [hstats] at hcounts
    obtain ⟨after, rfl, hstep⟩ := hcounts.exists_after
    cases keep with
    | true => cases hgone
    | false =>
      obtain ⟨_, -, count, -, hcount⟩ := h.counts stats hstats
      obtain ⟨stats', hrelease, -⟩ := (hcount.addReservation hstep).exists_addRelease
      have hnone : after.addRelease = none := hgone
      rw [hrelease] at hnone
      cases hnone
  | @refused stats? hpos hfull hcounts =>
    rw [hstats] at hcounts
    obtain ⟨after, rfl, -⟩ := hcounts.exists_after
    cases hgone

/-- A moment of work: the context is `Balanced`, and if the statistics are lost the work has broken
down. -/
def Kept (before : Arena) (x : Work × BuildState) : Prop :=
  x.2.context.Balanced before ∧ (before.LosesStats x.2.context.arena → x.1 = .crash)

/-- A step keeps `Kept`. A reservation is `Balanced.reserve`, and if it loses the statistics the
work has broken down by `Balanced.eq_crashed_of_losesStats`; no other step touches the arena. -/
theorem Kept.step {x y : Work × BuildState} (h : Kept before x) (hstep : x.1.step x.2 = some y) :
    Kept before y := by
  obtain ⟨w, s⟩ := x
  obtain ⟨hbalanced, hcrash⟩ := h
  -- Work that goes on has not broken down.
  have hkept : ¬ before.LosesStats s.context.arena := by
    intro hloses
    obtain rfl : w = .crash := hcrash hloses
    cases hstep
  cases w with
  | done | fail | crash => cases hstep
  | reserve size label keep next =>
    cases hstep
    refine ⟨hbalanced.reserve size label keep, fun hloses => ?_⟩
    show (s.context.reserve size label keep).2.resume next = .crash
    rw [hbalanced.eq_crashed_of_losesStats hkept hloses]
    rfl
  | drainBatches next =>
    cases hfound : s.calibrator with
    | some c | none =>
      rw [Work.step, hfound] at hstep
      cases hstep
      exact ⟨hbalanced, fun hloses => absurd hloses hkept⟩
  | _ =>
    -- The other steps touch neither the arena nor what the context keeps.
    cases hstep
    exact ⟨⟨hbalanced.exists_lost, hbalanced.counts⟩, fun hloses => absurd hloses hkept⟩

/-- The sum of what is held does not wrap while it is below `2 ^ 64`. Induction on what is held,
over all sums to begin with. -/
theorem toNat_foldl_size (held : List Reservation) (bytes : UInt64)
    (h : bytes.toNat + totalBytes (held.map Reservation.size) < 2 ^ 64) :
    (held.foldl (fun bytes r => bytes + r.size) bytes).toNat =
      bytes.toNat + totalBytes (held.map Reservation.size) := by
  induction held generalizing bytes with
  | nil => rfl
  | cons r rest ih =>
    rw [List.map_cons, totalBytes_cons] at h ⊢
    have hadd : (bytes + r.size).toNat = bytes.toNat + r.size.toNat := by
      rw [UInt64.toNat_add]
      exact Nat.mod_eq_of_lt (by omega)
    rw [List.foldl_cons, ih _ (by omega), hadd, Nat.add_assoc]

/-- What is kept is part of what is live, which is counted in 64 bits; so its sum does not wrap. -/
theorem Balanced.toNat_heldBytes (h : c.Balanced before) :
    c.heldBytes.toNat = totalBytes (c.held.map Reservation.size) := by
  obtain ⟨lost, hlive, -⟩ := h.exists_lost
  have hlt := c.arena.liveBytes.toNat_lt
  have hsum := toNat_foldl_size c.held 0 (by rw [UInt64.toNat_zero]; omega)
  rw [UInt64.toNat_zero, Nat.zero_add] at hsum
  exact hsum

/-- Closing a context counts releases and nothing else. -/
theorem Balanced.close_stats? (h : c.Balanced before) :
    Option.Rel (fun stats stats' => stats' = { stats with releases := stats'.releases })
      c.arena.stats? c.close.stats? := by
  cases hstats : c.arena.stats? with
  | none =>
    rw [BuildContext.close, stats?_release_all_of_none c.held hstats]
    exact .none
  | some stats =>
    obtain ⟨_, -, _, -, hcount⟩ := h.counts stats hstats
    obtain ⟨releases, hclose, -⟩ := stats?_release_all c.held hstats hcount
    rw [BuildContext.close, hclose]
    exact .some rfl

/-- Once the context is closed the arena is as it was `before`, unless it lost the statistics.
`Balanced` counts as many outstanding beyond `before` as the context holds. -/
theorem Balanced.close (h : c.Balanced before) :
    (c.close.liveBytes = before.liveBytes ∧
        c.close.stats.outstanding = before.stats.outstanding) ∨
      before.LosesStats c.arena ∧ before.LosesStats c.close := by
  by_cases hloses : before.LosesStats c.arena
  · exact .inr ⟨hloses, hloses.1, stats?_release_all_of_none c.held hloses.2⟩
  · refine .inl ⟨UInt64.toNat_inj.mp (liveBytes_release_all c.held (h.live_eq hloses)), ?_⟩
    cases hstats : c.arena.stats? with
    | some stats' =>
      obtain ⟨stats, hbefore, count, hcount, hcount'⟩ := h.counts stats' hstats
      obtain ⟨releases, hclose, hcount''⟩ := stats?_release_all c.held hstats hcount'
      rw [← UInt64.toNat_inj, Arena.stats, Arena.stats, BuildContext.close, hclose,
        Option.mem_def.mp hbefore]
      exact hcount''.toNat_outstanding.trans hcount.toNat_outstanding.symm
    | none =>
      -- There were none before, so none are shown before or afterwards.
      have hbefore : before.stats? = none := not_not.mp fun hthere => hloses ⟨hthere, hstats⟩
      rw [Arena.stats, Arena.stats, BuildContext.close, stats?_release_all_of_none c.held hstats,
        hbefore]

end BuildContext

/-! ## Calibrating last -/

namespace Work

/-- The work ends with an engine, whatever it is answered. It asks for no memory. -/
def EndsWell : Work → Prop
  | .done _ => True
  | .fail _ => False
  | .crash => False
  | .checkpoint next => ∀ cause?, (next cause?).EndsWell
  | .reserve .. => False
  | .fire next => next.EndsWell
  | .pause _ next => next.EndsWell
  | .observe next => next.EndsWell
  | .readCache next => ∀ content?, (next content?).EndsWell
  | .drainBatches next => ∀ batches, (next batches).EndsWell
  | .writeCache _ next => next.EndsWell

/-- Batches are taken, and the cache is written, only when nothing can fail any more. -/
def CalibratesLast : Work → Prop
  | .done _ => True
  | .fail _ => True
  | .crash => True
  | .checkpoint next => ∀ cause?, (next cause?).CalibratesLast
  | .reserve _ _ _ next => ∀ e?, (next e?).CalibratesLast
  | .fire next => next.CalibratesLast
  | .pause _ next => next.CalibratesLast
  | .observe next => next.CalibratesLast
  | .readCache next => ∀ content?, (next content?).CalibratesLast
  | .drainBatches next => ∀ batches, (next batches).EndsWell
  | .writeCache _ next => next.EndsWell

variable {w : Work}

/-- Work that ends well ends with an engine. Induction on the work, over all states. -/
theorem EndsWell.exists_engine (h : w.EndsWell) (s : BuildState) :
    ∃ bytes, (w.run s).2 = .engine bytes := by
  induction w generalizing s with
  | done engine => exact ⟨engine, rfl⟩
  | fail | crash | reserve => exact h.elim
  | checkpoint next ih => exact ih _ (h _) _
  | fire next ih => exact ih h _
  | pause _ next ih => exact ih h _
  | observe next ih => exact ih h _
  | readCache next ih => exact ih _ (h _) _
  | drainBatches next ih =>
    unfold run
    split
    · exact ih _ (h _) _
    · exact ih _ (h _) _
  | writeCache _ next ih => exact ih h _

/-- Work that calibrates last and ends without an engine has left the calibrator alone. Induction on
the work; after the first batch is taken the work `EndsWell`. -/
theorem CalibratesLast.run_calibrator (h : w.CalibratesLast) {s : BuildState}
    (hend : ∀ bytes, (w.run s).2 ≠ .engine bytes) : (w.run s).1.calibrator = s.calibrator := by
  induction w generalizing s with
  | done | fail | crash => rfl
  | checkpoint next ih => exact ih _ (h _) hend
  | reserve size label keep next ih =>
    rw [run_reserve] at hend ⊢
    let s' : BuildState := { s with context := (s.context.reserve size label keep).1 }
    exact Reply.resume_of_forall
      (P := fun w => (∀ bytes, (w.run s').2 ≠ .engine bytes) →
        (w.run s').1.calibrator = s.calibrator)
      (fun e? => ih e? (h e?)) (fun _ => rfl) _ hend
  | fire next ih => exact ih h hend
  | pause _ next ih => exact ih h hend
  | observe next ih => exact ih h hend
  | readCache next ih => exact ih _ (h _) hend
  | drainBatches next =>
    -- Once batches are taken the work ends with an engine, which `hend` excludes.
    have hwell : (drainBatches next).EndsWell := h
    obtain ⟨bytes, hengine⟩ := hwell.exists_engine s
    exact absurd hengine (hend bytes)
  | writeCache content next =>
    have hwell : (writeCache content next).EndsWell := h
    obtain ⟨bytes, hengine⟩ := hwell.exists_engine s
    exact absurd hengine (hend bytes)

end Work

theorem calibratesLast_keptByLayers : Work.KeptByLayers Work.CalibratesLast where
  fail _ := True.intro
  checkpoint h := h
  reserve h := by
    rintro (_ | e)
    · exact h
    · exact True.intro
  pause h := h

theorem calibratesLast_reference (b : ReferenceBackend) (n : Network) (o : EngineOptions) :
    (b.work n o).CalibratesLast := by
  refine calibratesLast_keptByLayers.referenceWork b n o fun image => ?_
  unfold ReferenceBackend.calibrationWork
  split
  · rintro (_ | content)
    · exact fun batches => True.intro
    · exact True.intro
  · exact True.intro

/-! ## Builds -/

/-- A moment of a build: its backend has begun, and has come to a state. -/
def BuildPasses (backend : Backend) (g : ValidGraph) (r : Region) (s : Settings)
    (budget : BuildBudget) (arena : Arena) (signal : Bool) (t : BuildState) : Prop :=
  ∃ n, lower g r s = .ok n ∧ budget.check signal 0 = none ∧
    ∃ w, Work.Steps
      (backend.work n (.ofSettings s), ⟨.new n.region arena budget signal, s.usedCalibrator, []⟩)
      (w, t)

section

variable {backend : Backend} {g : ValidGraph} {r : Region} {s : Settings} {n : Network}
variable {budget : BuildBudget} {arena : Arena} {signal : Bool}

theorem kept_new {count : Nat} (hcount : ∀ stats ∈ arena.stats?, stats.Outstanding count)
    (w : Work) (region : Nat) (calibrator : Option Calibrator) :
    BuildContext.Kept arena (w, ⟨.new region arena budget signal, calibrator, []⟩) :=
  ⟨BuildContext.balanced_new hcount region budget signal, fun hloses => absurd hloses.2 hloses.1⟩

/-- At every moment of a build the context is balanced, by `Kept.step` over the steps so far. -/
theorem balanced_of_buildPasses {count : Nat}
    (hcount : ∀ stats ∈ arena.stats?, stats.Outstanding count) {t : BuildState}
    (h : BuildPasses backend g r s budget arena signal t) : t.context.Balanced arena := by
  obtain ⟨n, -, -, w, hsteps⟩ := h
  exact (Work.holds_of_steps hsteps (kept_new hcount _ _ _) BuildContext.Kept.step).1

/-- When the work is over, the context is balanced still, and if the statistics are lost the work
has broken down. -/
theorem kept_run {count : Nat} (hcount : ∀ stats ∈ arena.stats?, stats.Outstanding count)
    (w : Work) (region : Nat) (budget : BuildBudget) (signal : Bool)
    (calibrator : Option Calibrator) :
    let ended := w.run ⟨.new region arena budget signal, calibrator, []⟩
    ended.1.context.Balanced arena ∧
      (arena.LosesStats ended.1.context.arena → ended.2 = .crashed) := by
  obtain ⟨v, hsteps, hending⟩ := w.exists_steps_run
    ⟨.new region arena budget signal, calibrator, []⟩
  obtain ⟨hbalanced, hcrash⟩ :=
    Work.holds_of_steps hsteps (kept_new hcount w region calibrator) BuildContext.Kept.step
  refine ⟨hbalanced, fun hloses => ?_⟩
  obtain rfl : v = .crash := hcrash hloses
  exact (Option.some.inj hending).symm

/-- A build leaves the arena as it was, or it breaks down and loses the statistics. `kept_run`
carries `Balanced` through the work, and `Balanced.close` settles the end. -/
theorem buildIn_arena_restored {count : Nat}
    (hcount : ∀ stats ∈ arena.stats?, stats.Outstanding count) (backend : Backend) (g : ValidGraph)
    (r : Region) (s : Settings) (budget : BuildBudget) (signal : Bool) :
    let result := buildIn backend g r s budget arena signal
    (result.arena.liveBytes = arena.liveBytes ∧
        result.arena.stats.outstanding = arena.stats.outstanding) ∨
      (∃ region, result.outcome = .error (.crashed region)) ∧ arena.LosesStats result.arena := by
  intro result
  rcases buildIn_eq_or backend g r s budget arena signal with
    ⟨e, hstopped⟩ | ⟨n, hn, hcheck, hbuild⟩
  · exact .inl (by rw [show result = _ from hstopped]; exact ⟨rfl, rfl⟩)
  · obtain ⟨hbalanced, hcrash⟩ : _ ∧ _ := kept_run hcount
      (backend.work n (.ofSettings s)) n.region budget signal s.usedCalibrator
    rw [show result = _ from hbuild]
    refine hbalanced.close.imp_right fun ⟨hloses, hafter⟩ => ⟨⟨n.region, ?_⟩, hafter⟩
    unfold buildNetwork
    dsimp only
    rw [hcrash hloses]
    rfl

/-- A build that fails leaves the calibrator as it was, if its backend calibrates last. Before the
backend begins nothing is done to the calibrator at all. -/
theorem buildIn_calibrator_of_error (hlast : ∀ n o, (backend.work n o).CalibratesLast)
    {e : BuildError} (herror : (buildIn backend g r s budget arena signal).outcome = .error e) :
    (buildIn backend g r s budget arena signal).calibrator = s.calibrator := by
  rcases buildIn_eq_or backend g r s budget arena signal with ⟨e, hstopped⟩ | ⟨n, hn, -, hbuild⟩
  · rw [hstopped]
  · rw [hbuild] at herror ⊢
    let start : BuildState := ⟨.new n.region arena budget signal, s.usedCalibrator, []⟩
    have hend : ∀ bytes, ((backend.work n (.ofSettings s)).run start).2 ≠ .engine bytes := by
      intro bytes hengine
      unfold buildNetwork at herror
      dsimp only at herror
      rw [hengine] at herror
      cases herror
    have hrun := (hlast n (.ofSettings s)).run_calibrator hend
    unfold buildNetwork
    dsimp only
    split
    · next hint8 =>
      rw [hrun]
      exact if_pos hint8
    · rfl

end

/-- Whatever was done in the arena before a build, and however it ends: the arena has the bytes and
the outstanding reservations that it had before, unless the build breaks down because the arena cannot
count one of its requests. While the build runs the arena has what the build keeps on top. If the
reference backend builds no engine, the calibrator is as it was. -/
theorem buildIn_restores (g : ValidGraph) (r : Region) (s : Settings) (budget : BuildBudget)
    (signal : Bool) (device : String) (memory : MemoryBudget) (history : List Ledger.Step) :
    let arena := ((Ledger.new device memory).run history).arena
    (∀ backend,
      let result := buildIn backend g r s budget arena signal
      ((result.arena.liveBytes = arena.liveBytes ∧
            result.arena.stats.outstanding = arena.stats.outstanding) ∨
          (∃ region, result.outcome = .error (.crashed region)) ∧
            arena.LosesStats result.arena) ∧
        ∀ t, BuildPasses backend g r s budget arena signal t →
          t.context.heldBytes.toNat = totalBytes (t.context.held.map Reservation.size) ∧
          (t.context.arena.liveBytes.toNat = arena.liveBytes.toNat + t.context.heldBytes.toNat ∨
            arena.LosesStats t.context.arena)) ∧
      ∀ (b : ReferenceBackend) (e : BuildError),
        (buildIn b.toBackend g r s budget arena signal).outcome = .error e →
          (buildIn b.toBackend g r s budget arena signal).calibrator = s.calibrator := by
  intro arena
  have hcount := Ledger.outstanding_run device memory history
  refine ⟨fun backend => ⟨buildIn_arena_restored hcount backend g r s budget signal,
    fun t ht => ?_⟩, fun b e => buildIn_calibrator_of_error (calibratesLast_reference b)⟩
  have hbalanced := balanced_of_buildPasses hcount ht
  refine ⟨hbalanced.toNat_heldBytes, or_iff_not_imp_right.mpr fun hkept => ?_⟩
  rw [hbalanced.toNat_heldBytes]
  exact hbalanced.live_eq hkept

/-! ## An instance

The first region of the skipping graph is built in an arena in which something else is reserved. The
first layer's workspace is kept; the second layer is of a kind that the backend rejects. -/

/-- The first region of the skipping graph, with its first two operators. -/
def skippingRegion : Region := Run.toRegion skippingValid 0 ⟨.accelerator, 0, 2, []⟩

/-- Settings for int8 with a calibrator that has one batch and an empty cache. -/
def calibratedSettings : Settings :=
  { skippingSettings with
    precisions := [.int8]
    calibrator := some ⟨"samples", 1, [[]], .keeps none⟩
    calibrationMode := .postTraining }

/-- An arena of a thousand bytes, of which another client has three hundred. -/
def busyArena : Arena := ((Ledger.new "gpu0" (.limited 1000)).run [.reserve 300 "other"]).arena

/-- A reference backend that cannot build `relu` and reserves a hundred bytes for each layer. -/
def rejecting : ReferenceBackend := ⟨.ofList ["relu"], true, 100, 0⟩

/-- The build reserves a hundred bytes, fails at the second layer, and leaves the arena and the
calibrator as they were. -/
theorem buildIn_restores_rejecting :
    let result := buildIn rejecting.toBackend skippingValid skippingRegion calibratedSettings
      .unbounded busyArena false
    (∃ t, BuildPasses rejecting.toBackend skippingValid skippingRegion calibratedSettings .unbounded
        busyArena false t ∧
      t.context.held = [⟨"a:workspace", 100⟩] ∧ t.context.heldBytes.toNat = 100 ∧
        t.context.arena.liveBytes.toNat = 300 + t.context.heldBytes.toNat) ∧
      (∃ e, result.outcome = .error e ∧
        result.calibrator = some ⟨"samples", 1, [[]], .keeps none⟩) ∧
      result.arena.liveBytes = 300 ∧ result.arena.stats.outstanding = 1 := by
  intro result
  obtain ⟨hbackend, hreference⟩ := buildIn_restores skippingValid skippingRegion calibratedSettings
    .unbounded false "gpu0" (.limited 1000) [.reserve 300 "other"]
  obtain ⟨hrestored, hpasses⟩ := hbackend rejecting.toBackend
  let profile : Profile := ⟨[1, 8], [1, 8], [1, 8], .float, .contiguous⟩
  let n : Network :=
    { region := 0, name := "skipping.region0",
      layers := [⟨"a", "conv", ["x"], ["t0"]⟩, ⟨"b", "relu", ["t0"], ["t1"]⟩],
      inputs := [⟨"x", .profile profile⟩], outputs := ["t0", "t1"] }
  have hn : lower skippingValid skippingRegion calibratedSettings = .ok n := by decide
  -- The moment after the first checkpoint and the first layer's reservation.
  have hmoment : BuildPasses rejecting.toBackend skippingValid skippingRegion calibratedSettings
      .unbounded busyArena false _ := ⟨n, hn, rfl, _, .tail (.tail .refl rfl) rfl⟩
  obtain ⟨hsum, hwith⟩ := hpasses _ hmoment
  have hfailed : ∃ e, result.outcome = .error (.failed e) := ⟨_, rfl⟩
  obtain ⟨e, hfailed⟩ := hfailed
  obtain ⟨hlive, houtstanding⟩ := hrestored.resolve_right fun ⟨⟨region, hcrashed⟩, _⟩ => by
    cases hfailed.symm.trans hcrashed
  refine ⟨⟨_, hmoment, rfl, hsum, hwith.resolve_right fun hloses => ?_⟩,
    ⟨_, hfailed, hreference rejecting _ hfailed⟩, hlive, houtstanding⟩
  cases hloses.2

end HybridCompile
