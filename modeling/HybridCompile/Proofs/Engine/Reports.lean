import HybridCompile.Proofs.Engine.Requests

/-!
# HybridCompile — what the report on a build tells

The report on a build is made when the build is over, from what its arena has counted then. How many
reservations the build made is a difference of two counts, so it is right whatever was done in the
arena before. The peak is not: it is the highest point of the arena's whole life, and tells of the
build only as long as the arena was never higher before. Nothing else in a report depends on what
happened in the arena earlier. Only a build that cannot be counted any more gives no report, and one
in an arena whose statistics are lost reports nothing of it.

* `ArenaStats.GrowsAlike`, `Work.run_withStats` — what work adds to the statistics is the same
  whatever they were, or it breaks down.
* `eq_report_of_buildIn`, `exists_report_withStats` — the report on a build, and the one on the same
  build in an arena that has counted something else; `exists_report_again` — the one on the next.
* `buildIn_report` — what a report tells of its build, and the report on the next build.
-/

namespace HybridCompile

/-! ## What is counted -/

namespace ArenaStats

/-- So many reservations more are counted, and a point was reached that is the peak now, unless the
peak was higher before. No more was given back than that. -/
structure Grown (count highest : Nat) (st st' : ArenaStats) : Prop where
  reservations_eq : st'.reservations.toNat = st.reservations.toNat + count
  releases_le : st'.releases.toNat ≤ st.releases.toNat + count
  peak_eq : st'.peakLiveBytes.toNat = max st.peakLiveBytes.toNat highest

theorem Grown.refl (st : ArenaStats) : Grown 0 0 st st := ⟨rfl, Nat.le_refl _, (Nat.max_zero _).symm⟩

theorem Grown.trans {count count' highest highest' : Nat} {st st' st'' : ArenaStats}
    (h : Grown count highest st st') (h' : Grown count' highest' st' st'') :
    Grown (count + count') (max highest highest') st st'' where
  reservations_eq := by rw [h'.reservations_eq, h.reservations_eq, Nat.add_assoc]
  releases_le := by
    have hle := h.releases_le
    have hle' := h'.releases_le
    omega
  peak_eq := by rw [h'.peak_eq, h.peak_eq, max_assoc]

/-- Statistics that are there have not counted more releases than reservations. -/
def Orderly (st? : Option ArenaStats) : Prop :=
  ∀ st ∈ st?, st.releases.toNat ≤ st.reservations.toNat

theorem orderly_of_outstanding {st? : Option ArenaStats} {count : Nat}
    (h : ∀ st ∈ st?, st.Outstanding count) : Orderly st? :=
  fun st hst => (h st hst) ▸ Nat.le_add_right _ _

theorem Orderly.exists_outstanding {st? : Option ArenaStats} (h : Orderly st?) :
    ∃ count, ∀ st ∈ st?, st.Outstanding count := by
  cases st? with
  | none => exact ⟨0, fun st hst => by cases hst⟩
  | some st =>
    refine ⟨st.reservations.toNat - st.releases.toNat, fun st' hst' => ?_⟩
    obtain rfl := Option.some.inj hst'
    exact (Nat.add_sub_cancel' (h st rfl)).symm

/-- Orderly statistics stay orderly as they grow, since no more is given back than is reserved on
the way. -/
theorem Orderly.grown {count highest : Nat} {st? st?' : Option ArenaStats} (h : Orderly st?)
    (hgrown : Option.Rel (Grown count highest) st? st?') : Orderly st?' := by
  intro st' hst'
  rw [Option.mem_def.mp hst'] at hgrown
  obtain ⟨st, hst, hg⟩ := exists_left_of_rel hgrown
  have hle := h st hst
  have hcount := hg.reservations_eq
  have hreleases := hg.releases_le
  omega

/-- From whatever was counted before there is a way on, and what it adds is the same for all; or
there is a count that overflows, as `Q` says. -/
def GrowsAlike (P : Option ArenaStats → Option ArenaStats → Prop) (Q : Option ArenaStats → Prop) :
    Prop :=
  ∃ count highest, ∀ st?, Orderly st? →
    (∃ st?', Option.Rel (Grown count highest) st? st?' ∧ P st? st?') ∨ st? ≠ none ∧ Q st?

variable {P P' P'' : Option ArenaStats → Option ArenaStats → Prop}
variable {Q Q' Q'' : Option ArenaStats → Prop}

theorem growsAlike_self (h : ∀ st?, P st? st?) : GrowsAlike P Q := by
  refine ⟨0, 0, fun st? _ => .inl ⟨st?, ?_, h st?⟩⟩
  cases st? with
  | none => exact .none
  | some st => exact .some (.refl st)

theorem GrowsAlike.imp (h : GrowsAlike P Q) (hP : ∀ {st? st?'}, P st? st?' → P' st? st?')
    (hQ : ∀ {st?}, Q st? → Q' st?) : GrowsAlike P' Q' := by
  obtain ⟨count, highest, hall⟩ := h
  refine ⟨count, highest, fun st? horderly => ?_⟩
  exact (hall st? horderly).imp
    (fun ⟨st?', hgrown, hgoes⟩ => ⟨st?', hgrown, hP hgoes⟩) fun ⟨hthere, hover⟩ => ⟨hthere, hQ hover⟩

/-- Two stretches one after the other go the same way for all statistics, or one of the two breaks
down; `Orderly.grown` carries order from the first to the second. -/
theorem GrowsAlike.trans (h : GrowsAlike P Q) (h' : GrowsAlike P' Q')
    (hboth : ∀ {st? st?' st?''}, P st? st?' → P' st?' st?'' → P'' st? st?'')
    (hfirst : ∀ {st?}, Q st? → Q'' st?)
    (hsecond : ∀ {st? st?'}, P st? st?' → Q' st?' → Q'' st?) : GrowsAlike P'' Q'' := by
  obtain ⟨count, highest, hall⟩ := h
  obtain ⟨count', highest', hall'⟩ := h'
  refine ⟨count + count', max highest highest', fun st? horderly => ?_⟩
  rcases hall st? horderly with ⟨st?', hgrown, hgoes⟩ | ⟨hthere, hover⟩
  · rcases hall' st?' (horderly.grown hgrown) with ⟨st?'', hgrown', hgoes'⟩ | ⟨hthere, hover⟩
    · exact .inl ⟨st?'', rel_trans hgrown hgrown' Grown.trans, hboth hgoes hgoes'⟩
    · refine .inr ⟨fun hnone => ?_, hsecond hgoes hover⟩
      subst hnone
      cases hgrown
      exact hthere rfl
  · exact .inr ⟨hthere, hfirst hover⟩

theorem grown_of_addReservation {st st' : ArenaStats} {size live : UInt64}
    (h : st.addReservation size live = some st') : Grown 1 live.toNat st st' := by
  obtain ⟨hcount, -, heq⟩ := addReservation_eq_some_iff.mp h
  refine ⟨hcount, ?_, ?_⟩
  · rw [heq]
    exact Nat.le_succ _
  · rw [heq]
    exact UInt64.toNat_max _ _

theorem grown_of_addRejection {st st' : ArenaStats} (h : st.addRejection = some st') :
    Grown 0 0 st st' := by
  rw [eq_of_addRejection h]
  exact ⟨rfl, Nat.le_refl _, (Nat.max_zero _).symm⟩

/-- A reservation that comes back at once can be counted as given back too, since it is one of those
`Outstanding`. One more is counted both ways, and the peak is that of the reservation. -/
theorem rel_grown_of_counts {st? st?' : Option ArenaStats} {size live : UInt64}
    (horderly : Orderly st?) (h : Arena.Counts (·.addReservation size live) st? st?') :
    Option.Rel (Grown 1 live.toNat) st? (st?'.bind addRelease) := by
  cases h with
  | none => exact .none
  | @some st st' hadd =>
    obtain ⟨hcount, -, heq⟩ := addReservation_eq_some_iff.mp hadd
    have hle := horderly st rfl
    have houtstanding : st.Outstanding (st.reservations.toNat - st.releases.toNat) :=
      (Nat.add_sub_cancel' hle).symm
    obtain ⟨st'', hrelease, -⟩ := (houtstanding.addReservation hadd).exists_addRelease
    obtain ⟨hreleases, heq'⟩ := addRelease_eq_some_iff.mp hrelease
    show Option.Rel _ (some st) st'.addRelease
    rw [hrelease]
    refine .some ⟨?_, ?_, ?_⟩
    · rw [heq', hcount]
    · rw [hreleases, heq]
    · rw [heq', heq]
      exact UInt64.toNat_max _ _

end ArenaStats

open ArenaStats (Grown Orderly GrowsAlike growsAlike_self)

/-- The same context in an arena that has counted something else. -/
def BuildContext.withStats (c : BuildContext) (st? : Option ArenaStats) : BuildContext :=
  { c with arena := { c.arena with stats? := st? } }

/-- The same state in an arena that has counted something else. -/
def BuildState.withStats (s : BuildState) (st? : Option ArenaStats) : BuildState :=
  { s with context := s.context.withStats st? }

/-- A request that is answered is answered without a look at the statistics, unless they cannot count
it. -/
theorem BuildContext.reserve_withStats (c : BuildContext) (size : UInt64) (label : String)
    (keep : Bool) (hanswer : (c.reserve size label keep).2 ≠ .crashed) :
    GrowsAlike
      (fun st? st?' => (c.withStats st?).reserve size label keep =
        ((c.reserve size label keep).1.withStats st?', (c.reserve size label keep).2))
      (fun st? => ((c.withStats st?).reserve size label keep).2 = .crashed ∧
        ((c.withStats st?).reserve size label keep).1.arena.stats? = none) := by
  have hcannot : ∀ {st?}, size ≠ 0 → (c.withStats st?).arena.CannotCount size →
      st? ≠ none ∧ ((c.withStats st?).reserve size label keep).2 = .crashed ∧
        ((c.withStats st?).reserve size label keep).1.arena.stats? = none := by
    intro st? hpos hcount
    obtain ⟨st, hst, -⟩ := id hcount
    refine ⟨fun hnone => ?_, ?_⟩
    · subst hnone
      cases hst
    · rw [BuildContext.reserve, Arena.reserve_of_cannotCount hpos hcount]
      exact ⟨rfl, rfl⟩
  have hanswers := c.arena.answers_reserve size label
  rw [BuildContext.reserve_snd] at hanswer
  rcases hr : c.arena.reserve size label with ⟨arena, reply⟩
  rw [hr] at hanswers hanswer
  cases hanswers with
  | zeroSized hzero =>
    subst hzero
    exact growsAlike_self fun st? => rfl
  | lost | uncounted => exact absurd rfl hanswer
  | granted hpos hfits =>
    refine ⟨1, (c.arena.liveBytes + size).toNat, fun st? horderly => ?_⟩
    by_cases hcount : (c.withStats st?).arena.CannotCount size
    · exact .inr (hcannot hpos hcount)
    · obtain ⟨st?', hcounts, hr'⟩ :=
        Arena.reserve_of_fits (a := (c.withStats st?).arena) hpos hfits hcount label
      cases keep with
      | true =>
        refine .inl ⟨st?', rel_imp hcounts ArenaStats.grown_of_addReservation, ?_⟩
        simp only [BuildContext.reserve, hr', hr]
        rfl
      | false =>
        -- what comes back at once is counted too
        refine .inl ⟨_, ArenaStats.rel_grown_of_counts horderly hcounts, ?_⟩
        simp only [BuildContext.reserve, hr', hr]
        rfl
  | refused hpos hfull =>
    refine ⟨0, 0, fun st? _ => ?_⟩
    by_cases hcount : (c.withStats st?).arena.CannotCount size
    · exact .inr (hcannot hpos hcount)
    · obtain ⟨st?', hcounts, hr'⟩ :=
        Arena.reserve_of_full (a := (c.withStats st?).arena) hpos hfull hcount label
      refine .inl ⟨st?', rel_imp hcounts ArenaStats.grown_of_addRejection, ?_⟩
      simp only [BuildContext.reserve, hr', hr]
      rfl

namespace Work

variable {w w' : Work} {s s' : BuildState}

/-- A step that does not break down goes the same way whatever was counted before, or it breaks down
then. -/
theorem step_withStats (h : w.step s = some (w', s')) (hgoes : w' ≠ .crash) :
    GrowsAlike (fun st? st?' => w.step (s.withStats st?) = some (w', s'.withStats st?'))
      (fun st? => ∃ t, w.step (s.withStats st?) = some (.crash, t) ∧
        t.context.arena.stats? = none) := by
  cases w with
  | done | fail | crash => cases h
  | reserve size label keep next =>
    cases h
    have hanswer : (s.context.reserve size label keep).2 ≠ .crashed := by
      intro hcrashed
      rw [hcrashed] at hgoes
      exact hgoes rfl
    refine (s.context.reserve_withStats size label keep hanswer).imp (fun hr => ?_) ?_
    · simp only [step, BuildState.withStats, hr]
    · rintro st? ⟨hcrashed, hlost⟩
      let c := ((s.context.withStats st?).reserve size label keep).1
      refine ⟨{ s with context := c }, ?_, hlost⟩
      simp only [step, BuildState.withStats, hcrashed]
      rfl
  | drainBatches next =>
    refine growsAlike_self fun st? => ?_
    cases hfound : s.calibrator with
    | some c | none =>
      simp only [step, hfound] at h
      cases h
      simp only [step, BuildState.withStats, hfound]
  | _ =>
    cases h
    exact growsAlike_self fun st? => rfl

/-- By induction on the steps: only the last can be a breakdown, since none follows it. -/
theorem steps_withStats {x y : Work × BuildState} (h : Steps x y) (hgoes : y.1 ≠ .crash) :
    GrowsAlike (fun st? st?' => Steps (x.1, x.2.withStats st?) (y.1, y.2.withStats st?'))
      (fun st? => ∃ t, Steps (x.1, x.2.withStats st?) (.crash, t) ∧
        t.context.arena.stats? = none) := by
  induction h with
  | refl => exact growsAlike_self fun st? => .refl
  | @tail y z _ hstep ih =>
    have hgoes' : y.1 ≠ .crash := by
      intro hcrash
      rw [hcrash] at hstep
      cases hstep
    exact (ih hgoes').trans (step_withStats hstep hgoes)
      (fun hsteps hlast => hsteps.tail hlast) id
      fun hsteps ⟨t, hlast, hlost⟩ => ⟨t, hsteps.tail hlast, hlost⟩

/-- Work that does not break down comes to the same end whatever was counted before, and adds the
same to it; or it breaks down when the statistics are lost. -/
theorem run_withStats (w : Work) (s : BuildState) (hends : (w.run s).2 ≠ .crashed) :
    GrowsAlike
      (fun st? st?' => w.run (s.withStats st?) = ((w.run s).1.withStats st?', (w.run s).2))
      (fun st? => (w.run (s.withStats st?)).2 = .crashed ∧
        (w.run (s.withStats st?)).1.context.arena.stats? = none) := by
  obtain ⟨v, hsteps, hending⟩ := exists_steps_run w s
  have hgoes : v ≠ .crash := by
    rintro rfl
    exact hends (Option.some.inj hending).symm
  refine (steps_withStats hsteps hgoes).imp (fun hsteps' => run_eq_iff.mpr ⟨v, hsteps', hending⟩) ?_
  rintro st? ⟨t, hsteps', hlost⟩
  have hrun : w.run (s.withStats st?) = (t, .crashed) := run_eq_iff.mpr ⟨.crash, hsteps', rfl⟩
  rw [hrun]
  exact ⟨rfl, hlost⟩

end Work

/-! ## The report -/

section

variable {backend : Backend} {g : ValidGraph} {r : Region} {s : Settings} {budget : BuildBudget}
variable {arena : Arena} {signal : Bool} {bytes : Bytes} {report : BuildReport}

/-- A build that gives an engine has done all its work, and its report is read off the arena that it
leaves. -/
theorem eq_report_of_buildIn
    (h : (buildIn backend g r s budget arena signal).outcome = .ok (.engine bytes report)) :
    ∃ n, lower g r s = .ok n ∧ budget.check signal 0 = none ∧
      let ended := (backend.work n (.ofSettings s)).run
        ⟨.new n.region arena budget signal, s.usedCalibrator, []⟩
      let after := (buildIn backend g r s budget arena signal).arena
      ended.2 = .engine bytes ∧ after = ended.1.context.close ∧
        report = {
          region := n.region, backend := backend.name, network := n.name,
          duration := .ofMillis ended.1.context.clock, engineBytes := bytes.length,
          peakDeviceBytes := after.stats.peakLiveBytes,
          reservations := after.stats.reservations - arena.stats.reservations,
          inputs := n.inputs } := by
  rcases buildIn_eq_or backend g r s budget arena signal with
    ⟨e, hstopped⟩ | ⟨n, hn, hcheck, hbuild⟩
  · rw [hstopped] at h
    cases h
  · refine ⟨n, hn, hcheck, ?_⟩
    rw [hbuild] at h ⊢
    unfold buildNetwork at h ⊢
    dsimp only at h ⊢
    cases hend : ((backend.work n (.ofSettings s)).run
      ⟨.new n.region arena budget signal, s.usedCalibrator, []⟩).2 with
    | engine bytes' =>
      rw [hend] at h
      cases h
      exact ⟨rfl, rfl, rfl⟩
    | failure e =>
      rw [hend] at h
      cases e <;> cases h
    | crashed =>
      rw [hend] at h
      cases h

/-- What a report tells of its arena: nothing if there were no statistics, and else so many
reservations, and a point, unless the peak was higher before. -/
def BuildReport.Tells (count highest : Nat) (stats? : Option ArenaStats) (report : BuildReport) :
    Prop :=
  match stats? with
  | none => report.reservations = 0 ∧ report.peakDeviceBytes = 0
  | some stats =>
    report.reservations.toNat = count ∧
      report.peakDeviceBytes.toNat = max stats.peakLiveBytes.toNat highest

/-- What is read off the statistics after a build, and before it. The difference of the two counts
does not wrap, because the later count is not below the earlier. -/
theorem tells_of_rel {count highest : Nat} {before after : Arena} {report : BuildReport}
    (hrel : Option.Rel (fun st st' => st'.reservations.toNat = st.reservations.toNat + count ∧
      st'.peakLiveBytes.toNat = max st.peakLiveBytes.toNat highest) before.stats? after.stats?)
    (hcount : report.reservations = after.stats.reservations - before.stats.reservations)
    (hpeak : report.peakDeviceBytes = after.stats.peakLiveBytes) :
    report.Tells count highest before.stats? := by
  rw [Arena.stats, Arena.stats] at hcount
  rw [Arena.stats] at hpeak
  generalize after.stats? = after? at hrel hcount hpeak
  generalize before.stats? = before? at hrel hcount ⊢
  cases hrel with
  | none => exact ⟨hcount, hpeak⟩
  | @some st st' hst =>
    obtain ⟨hmore, hhigh⟩ := hst
    have hle : st.reservations ≤ st'.reservations :=
      UInt64.le_iff_toNat_le.mpr (hmore ▸ Nat.le_add_right _ _)
    refine ⟨?_, hpeak ▸ hhigh⟩
    rw [hcount]
    show (st'.reservations - st.reservations).toNat = count
    rw [UInt64.toNat_sub_of_le _ _ hle, hmore, Nat.add_sub_cancel_left]

/-- Of two reports on one build the later differs in the peak alone, if its arena had reached the
peak of the first by then: the highest point of the build is no higher. -/
theorem BuildReport.Tells.eq_of_le {count highest : Nat} {stats stats' : ArenaStats}
    {report report' : BuildReport} (h : report.Tells count highest (some stats))
    (h' : report'.Tells count highest (some stats'))
    (hrest : report' = { report with
      reservations := report'.reservations
      peakDeviceBytes := report'.peakDeviceBytes })
    (hle : report.peakDeviceBytes.toNat ≤ stats'.peakLiveBytes.toNat) :
    report' = { report with peakDeviceBytes := stats'.peakLiveBytes } := by
  have hcount : report'.reservations = report.reservations := by
    rw [← UInt64.toNat_inj, h'.1, h.1]
  have hhighest : highest ≤ stats'.peakLiveBytes.toNat :=
    le_trans (h.2 ▸ le_max_right _ _) hle
  have hpeak : report'.peakDeviceBytes = stats'.peakLiveBytes := by
    rw [← UInt64.toNat_inj, h'.2, max_eq_left hhighest]
  rw [hrest, hcount, hpeak]

/-- A report with another peak is the same report exactly if it is not another. -/
theorem BuildReport.with_peak_eq_iff (report : BuildReport) {peak : UInt64} :
    { report with peakDeviceBytes := peak } = report ↔ peak = report.peakDeviceBytes := by
  constructor
  · intro h
    exact congrArg BuildReport.peakDeviceBytes h
  · rintro rfl
    rfl

/-- Where the arena has counted something else, the build gives the same engine, and a report that
differs in what it tells of the arena only; or the arena cannot count it. -/
theorem exists_report_withStats
    (h : (buildIn backend g r s budget arena signal).outcome = .ok (.engine bytes report)) :
    ∃ count highest, ∀ st?, Orderly st? →
      let other : Arena := { arena with stats? := st? }
      let result := buildIn backend g r s budget other signal
      (∃ report', result.outcome = .ok (.engine bytes report') ∧
          report'.Tells count highest st? ∧
          report' = { report with
            reservations := report'.reservations
            peakDeviceBytes := report'.peakDeviceBytes }) ∨
        (∃ region, result.outcome = .error (.crashed region)) ∧ other.LosesStats result.arena := by
  obtain ⟨n, hn, hcheck, hend, -, hreport⟩ := eq_report_of_buildIn h
  let work := backend.work n (.ofSettings s)
  let start : BuildState := ⟨.new n.region arena budget signal, s.usedCalibrator, []⟩
  have hends : (work.run start).2 ≠ .crashed := fun hcrashed => by cases hend.symm.trans hcrashed
  obtain ⟨count, highest, hall⟩ := work.run_withStats start hends
  refine ⟨count, highest, fun st? horderly => ?_⟩
  intro other result
  have hresult : result = buildNetwork backend n s budget other signal := by
    show buildIn backend g r s budget other signal = _
    rw [buildIn_of_lower hn, hcheck]
  rcases hall st? horderly with ⟨st?', hgrown, hrun⟩ | ⟨hthere, hcrashed, hlost⟩
  · -- closing the context counts releases only, so the reservations and the peak are the work's
    obtain ⟨outstanding, houtstanding⟩ := horderly.exists_outstanding
    have hbalanced : ((work.run start).1.withStats st?').context.Balanced other := by
      have hkept : (work.run (start.withStats st?)).1.context.Balanced other :=
        (kept_run houtstanding work n.region budget signal s.usedCalibrator).1
      rwa [hrun] at hkept
    have hrel : Option.Rel (fun st st' => st'.reservations.toNat = st.reservations.toNat + count ∧
        st'.peakLiveBytes.toNat = max st.peakLiveBytes.toNat highest) st?
        ((work.run start).1.withStats st?').context.close.stats? :=
      rel_trans hgrown hbalanced.close_stats? fun hst hclose => by
        rw [hclose]
        exact ⟨hst.reservations_eq, hst.peak_eq⟩
    let after := ((work.run start).1.withStats st?').context.close
    let report' : BuildReport := { report with
      reservations := after.stats.reservations - other.stats.reservations
      peakDeviceBytes := after.stats.peakLiveBytes }
    have houtcome : result.outcome = outcomeOf backend n other after
        (work.run start).1.context.clock (work.run start).2 := by
      rw [hresult]
      show outcomeOf backend n other (work.run (start.withStats st?)).1.context.close
        (work.run (start.withStats st?)).1.context.clock (work.run (start.withStats st?)).2 = _
      rw [hrun]
      rfl
    have htells : report'.Tells count highest other.stats? := tells_of_rel hrel rfl rfl
    refine .inl ⟨report', ?_, htells, rfl⟩
    rw [houtcome, show (work.run start).2 = .engine bytes from hend]
    show _ = Except.ok (Artifact.engine bytes { report with
      reservations := after.stats.reservations - other.stats.reservations
      peakDeviceBytes := after.stats.peakLiveBytes })
    rw [hreport]
    rfl
  · refine .inr ⟨⟨n.region, ?_⟩, hthere, ?_⟩
    · rw [hresult]
      show outcomeOf backend n other _ _ (work.run (start.withStats st?)).2 = _
      rw [hcrashed]
      rfl
    · rw [hresult]
      exact stats?_release_all_of_none _ hlost

/-- A build that gives an engine has not lost the statistics: whoever loses them breaks down. -/
theorem exists_stats_of_engine (horderly : Orderly arena.stats?)
    (h : (buildIn backend g r s budget arena signal).outcome = .ok (.engine bytes report))
    (hthere : arena.stats? ≠ none) :
    ∃ stats', (buildIn backend g r s budget arena signal).arena.stats? = some stats' := by
  obtain ⟨n, -, -, hend, hafter, -⟩ := eq_report_of_buildIn h
  obtain ⟨count, hcount⟩ := horderly.exists_outstanding
  obtain ⟨hbalanced, hcrash⟩ : _ ∧ _ := kept_run hcount
    (backend.work n (.ofSettings s)) n.region budget signal s.usedCalibrator
  rw [hafter]
  refine Option.ne_none_iff_exists'.mp fun hlost => ?_
  have hbefore := (eq_none_iff_of_rel hbalanced.close_stats?).mp hlost
  cases hend.symm.trans (hcrash ⟨hthere, hbefore⟩)

/-- The same build once more, in an arena that has counted on since the first and never forgot its
peak. The report is that of the first but for the peak, which is the arena's by then; without
statistics there is none, and no count either. -/
theorem exists_report_again (horderly : Orderly arena.stats?)
    (h : (buildIn backend g r s budget arena signal).outcome = .ok (.engine bytes report))
    {st? : Option ArenaStats} (horderly' : Orderly st?)
    (hlater : ∀ st' ∈ st?, arena.stats? ≠ none ∧
      report.peakDeviceBytes.toNat ≤ st'.peakLiveBytes.toNat) :
    let other : Arena := { arena with stats? := st? }
    let result := buildIn backend g r s budget other signal
    (∃ report', result.outcome = .ok (.engine bytes report') ∧
        report' = { report with
          reservations := if st? = none then 0 else report.reservations
          peakDeviceBytes := other.stats.peakLiveBytes }) ∨
      (∃ region, result.outcome = .error (.crashed region)) ∧ other.LosesStats result.arena := by
  intro other result
  obtain ⟨count, highest, hall⟩ := exists_report_withStats h
  refine (hall st? horderly').imp_left fun ⟨report', hbuilt, htells, hrest⟩ =>
    ⟨report', hbuilt, ?_⟩
  cases st? with
  | none =>
    rw [hrest, htells.1, htells.2, if_pos rfl]
    rfl
  | some st' =>
    obtain ⟨hthere, hle⟩ := hlater st' rfl
    obtain ⟨st, hst⟩ := Option.ne_none_iff_exists'.mp hthere
    -- the first build is one of those that `hall` speaks of
    have hown : report.Tells count highest (some st) := by
      rcases hall arena.stats? horderly with
        ⟨report₁, hbuilt₁, htells₁, -⟩ | ⟨⟨region, hcrashed⟩, -⟩
      · cases h.symm.trans hbuilt₁
        rwa [hst] at htells₁
      · cases h.symm.trans hcrashed
    rw [if_neg (by simp)]
    exact hown.eq_of_le htells hrest hle

end

/-- A stretch of a history after which so much is reserved as before has changed what was counted
and nothing else in the arena. -/
theorem Ledger.arena_run_eq {l : Ledger} {steps : List Step}
    (hlive : (l.run steps).arena.liveBytes = l.arena.liveBytes) :
    (l.run steps).arena = { l.arena with stats? := (l.run steps).arena.stats? } := by
  show _ = Arena.mk l.arena.device l.arena.budget l.arena.liveBytes _
  rw [← hlive, ← device_run l steps, ← budget_run l steps]

/-- Statistics that are lost stay lost. -/
theorem Ledger.stats?_run_eq_none {l : Ledger} (hlost : l.arena.stats? = none) (steps : List Step) :
    (l.run steps).arena.stats? = none :=
  holds_of_transition (P := fun _ l' => l'.arena.stats? = none) hlost
    (fun h ht => ht.stats?_eq_none h) steps

/-- Whatever was reserved and given back in the arena before a build: the report on the engine tells
its size, how many reservations were granted during the build, and the peak of the arena, which is
the highest point of the build unless the arena was higher before. Of an arena without statistics it
tells nothing. Whatever happens then, once the arena holds as many bytes as before the build, the same
build gives the same engine and the same report but for the peak; and that is the same exactly if
nothing in between went above it. It gives none only if the arena cannot count it any more. -/
theorem buildIn_report (backend : Backend) (g : ValidGraph) (r : Region) (s : Settings)
    (budget : BuildBudget) (signal : Bool) (device : String) (memory : MemoryBudget)
    (history : List Ledger.Step) {bytes : Bytes} {report : BuildReport}
    (h : (buildIn backend g r s budget ((Ledger.new device memory).run history).arena
      signal).outcome = .ok (.engine bytes report)) :
    let before := (Ledger.new device memory).run history
    let steps := buildSteps backend g r s budget before signal
    let after := before.run steps
    after.arena = (buildIn backend g r s budget before.arena signal).arena ∧
      (∀ t, BuildPasses backend g r s budget before.arena signal t →
        t.context.arena.liveBytes.toNat ∈ before.liveHistory steps) ∧
      report.engineBytes = bytes.length ∧
      (before.arena.stats? = none → report.reservations = 0 ∧ report.peakDeviceBytes = 0) ∧
      (∀ stats, before.arena.stats? = some stats →
        report.reservations.toNat = (Ledger.grantedSizes (before.events steps)).length ∧
          ∃ highest, IsGreatest (before.liveHistory steps) highest ∧
            report.peakDeviceBytes.toNat = max stats.peakLiveBytes.toNat highest) ∧
      ∀ between,
        let again := after.run between
        let result := buildIn backend g r s budget again.arena signal
        again.arena.liveBytes = before.arena.liveBytes →
          (∃ report', result.outcome = .ok (.engine bytes report') ∧
            report' = { report with
              reservations := if again.arena.stats? = none then 0 else report.reservations
              peakDeviceBytes := again.arena.stats.peakLiveBytes } ∧
            (again.arena.stats? ≠ none → (report' = report ↔
              ∀ point ∈ after.liveHistory between, point ≤ report.peakDeviceBytes.toNat))) ∨
          (∃ region, result.outcome = .error (.crashed region)) ∧
            again.arena.LosesStats result.arena := by
  intro before steps after
  have hafter : after.arena = (buildIn backend g r s budget before.arena signal).arena :=
    run_buildSteps backend g r s budget before signal
  have horderly : ∀ later, Orderly ((Ledger.new device memory).run later).arena.stats? :=
    fun later => ArenaStats.orderly_of_outstanding (Ledger.outstanding_run device memory later)
  obtain ⟨n, -, -, -, -, hreport⟩ := eq_report_of_buildIn h
  have hbytes : report.engineBytes = bytes.length := by rw [hreport]
  have hpeak : report.peakDeviceBytes = after.arena.stats.peakLiveBytes := by rw [hreport, hafter]
  have hcount : report.reservations =
      after.arena.stats.reservations - before.arena.stats.reservations := by rw [hreport, hafter]
  have hkept : before.arena.stats? ≠ none → ∃ stats', after.arena.stats? = some stats' := by
    rw [hafter]
    exact exists_stats_of_engine (horderly history) h
  refine ⟨hafter, fun t ht => ?_, hbytes, fun hbefore => ?_, fun stats hbefore => ?_,
    fun between => ?_⟩
  · obtain ⟨p, hp, hmoment⟩ := exists_prefix_buildSteps ht
    exact ⟨p, hp, by rw [hmoment]⟩
  · have hnone : after.arena.stats? = none := Ledger.stats?_run_eq_none hbefore steps
    rw [hcount, hpeak, Arena.stats, Arena.stats, hnone, hbefore]
    exact ⟨rfl, rfl⟩
  · obtain ⟨stats', hstats'⟩ := hkept (by rw [hbefore]; simp)
    obtain ⟨highest, hgreatest, hmax⟩ :=
      Ledger.exists_isGreatest_peak_run device memory history steps hbefore hstats'
    obtain ⟨stats₁, hstats₁, hadded, -⟩ := Ledger.counts_run before steps stats' hstats'
    obtain rfl := Option.some.inj (hbefore.symm.trans hstats₁)
    have htells : report.Tells (Ledger.grantedSizes (before.events steps)).length highest
        before.arena.stats? := by
      refine tells_of_rel ?_ hcount hpeak
      rw [hbefore, hstats']
      exact .some ⟨hadded, hmax⟩
    rw [hbefore] at htells
    exact ⟨htells.1, highest, hgreatest, htells.2⟩
  · intro again result hlive
    -- the stretch from the one build to the next, and the history up to the end of the first
    have hrun : again = before.run (steps ++ between) := (Ledger.run_append _ _ _).symm
    have hhistory : after = (Ledger.new device memory).run (history ++ steps) :=
      (Ledger.run_append _ _ _).symm
    have hagain : again.arena = { before.arena with stats? := again.arena.stats? } := by
      rw [hrun] at hlive ⊢
      exact Ledger.arena_run_eq hlive
    have horderly' : Orderly again.arena.stats? := by
      have hlater : again = (Ledger.new device memory).run (history ++ steps ++ between) := by
        rw [Ledger.run_append, ← hhistory]
      rw [hlater]
      exact horderly _
    -- statistics that are there in the end were there all the time, and the peak went up at most
    have hthere : ∀ stats'' ∈ again.arena.stats?, before.arena.stats? ≠ none := by
      intro stats'' hstats'' hnone
      rw [hrun, Ledger.stats?_run_eq_none hnone] at hstats''
      cases hstats''
    have hpeaks : ∀ stats'' ∈ again.arena.stats?,
        report.peakDeviceBytes.toNat ≤ stats''.peakLiveBytes.toNat ∧
          (stats''.peakLiveBytes = report.peakDeviceBytes ↔
            ∀ point ∈ after.liveHistory between, point ≤ report.peakDeviceBytes.toNat) := by
      intro stats'' hstats''
      obtain ⟨stats', hstats'⟩ := hkept (hthere stats'' hstats'')
      have hend : (after.run between).arena.stats? = some stats'' := hstats''
      rw [hpeak, Arena.stats, hstats']
      rw [hhistory] at hstats' hend ⊢
      exact ⟨Ledger.peak_le_peak_run device memory (history ++ steps) between hstats' hend,
        Ledger.peak_run_eq_iff device memory (history ++ steps) between hstats' hend⟩
    have hreports := exists_report_again (horderly history) h horderly' fun stats'' hstats'' =>
      ⟨hthere stats'' hstats'', (hpeaks stats'' hstats'').1⟩
    dsimp only at hreports
    rw [← hagain] at hreports
    rcases hreports with ⟨report', hbuilt, heq⟩ | hcrashed
    · refine .inl ⟨report', hbuilt, heq, fun hne => ?_⟩
      obtain ⟨stats'', hstats''⟩ := Option.ne_none_iff_exists'.mp hne
      rw [heq, if_neg hne, Arena.stats, hstats'', Option.getD_some]
      exact (BuildReport.with_peak_eq_iff report).trans (hpeaks stats'' hstats'').2
    · exact .inr hcrashed

/-! ## An instance

The first region of the skipping graph is built in an arena. Each of its two layers keeps a hundred
bytes, and something else takes three hundred at another time. -/

/-- A reference backend that keeps a hundred bytes for each layer. -/
def keepingBackend : Backend := (ReferenceBackend.mk .empty true 100 0).toBackend

/-- What the build does in a ledger. -/
def keepingSteps (l : Ledger) : List Ledger.Step :=
  buildSteps keepingBackend skippingValid skippingRegion skippingSettings .unbounded l false

/-- How the build comes out in the arena of a ledger. -/
def keepingOutcome (l : Ledger) : Except BuildError Artifact :=
  (buildIn keepingBackend skippingValid skippingRegion skippingSettings .unbounded l.arena
    false).outcome

/-- The something else comes first. -/
def usedLedger : Ledger :=
  (Ledger.new "gpu0" (.limited 1000)).run [.reserve 300 "other", .release 0]

/-- The region is built first. -/
def builtLedger : Ledger :=
  (Ledger.new "gpu0" (.limited 1000)).run (keepingSteps (.new "gpu0" (.limited 1000)))

/-- After the build something else takes three hundred bytes, and gives them back. -/
def reusedLedger : Ledger := builtLedger.run [.reserve 300 "other", .release 2]

/-- Something smaller in between makes no difference to what is reported next. -/
theorem buildIn_report_skipping :
    ∃ bytes report, keepingOutcome usedLedger = .ok (.engine bytes report) ∧
      report.engineBytes = bytes.length ∧ report.reservations = 2 ∧
      (∃ highest, IsGreatest (usedLedger.liveHistory (keepingSteps usedLedger)) highest ∧
        report.peakDeviceBytes.toNat = max 300 highest) ∧
      keepingOutcome ((usedLedger.run (keepingSteps usedLedger)).run
        [.reserve 250 "later", .release 3]) = .ok (.engine bytes report) := by
  obtain ⟨bytes, report, hbuilt⟩ : ∃ bytes report,
      keepingOutcome usedLedger = .ok (.engine bytes report) := ⟨_, _, rfl⟩
  obtain ⟨-, -, hbytes, -, hnumbers, hagain⟩ := buildIn_report keepingBackend skippingValid
    skippingRegion skippingSettings .unbounded false "gpu0" (.limited 1000)
    [.reserve 300 "other", .release 0] hbuilt
  have hthere : usedLedger.arena.stats? = some usedLedger.arena.stats := by decide
  obtain ⟨hcount, highest, hgreatest, hmax⟩ := hnumbers _ hthere
  obtain ⟨report', hbuilt', -, hsame⟩ :=
    (hagain [.reserve 250 "later", .release 3] (by decide +kernel)).resolve_right
      fun ⟨_, hloses⟩ => absurd hloses.2 (by decide +kernel)
  have hsame := hsame (by decide +kernel)
  -- what is reserved in between stays below the three hundred
  have hbetween : IsGreatest ((usedLedger.run (keepingSteps usedLedger)).liveHistory
      [.reserve 250 "later", .release 3]) 250 :=
    Ledger.isGreatest_liveHistory_iff.mpr (by decide +kernel)
  have hthree : usedLedger.arena.stats.peakLiveBytes.toNat = 300 := by decide
  have hreport : report' = report := by
    refine hsame.mpr fun point hpoint => (hbetween.2 hpoint).trans ?_
    have hbelow : 250 ≤ usedLedger.arena.stats.peakLiveBytes.toNat := by rw [hthree]; decide
    rw [hmax]
    exact hbelow.trans (le_max_left _ _)
  have htwo : (Ledger.grantedSizes (usedLedger.events (keepingSteps usedLedger))).length = 2 := by
    decide +kernel
  refine ⟨bytes, report, hbuilt, hbytes, UInt64.toNat_inj.mp (hcount.trans htwo),
    ⟨highest, hgreatest, hthree ▸ hmax⟩, ?_⟩
  rw [← hreport]
  exact hbuilt'

/-- What is reserved is the same before two builds, and each comes to two hundred bytes. But for the
second three hundred are reported, which something else took in between. -/
theorem buildIn_report_stale :
    reusedLedger.arena.liveBytes = (Ledger.new "gpu0" (.limited 1000)).arena.liveBytes ∧
      IsGreatest (reusedLedger.liveHistory (keepingSteps reusedLedger)) 200 ∧
      (∃ bytes report, keepingOutcome (.new "gpu0" (.limited 1000)) =
        .ok (.engine bytes report) ∧ report.peakDeviceBytes = 200) ∧
      ∃ bytes report, keepingOutcome reusedLedger = .ok (.engine bytes report) ∧
        report.peakDeviceBytes = 300 := by
  refine ⟨by decide +kernel, ?_, ⟨_, _, rfl, by decide +kernel⟩, ⟨_, _, rfl, by decide +kernel⟩⟩
  exact Ledger.isGreatest_liveHistory_iff.mpr (by decide +kernel)

end HybridCompile
