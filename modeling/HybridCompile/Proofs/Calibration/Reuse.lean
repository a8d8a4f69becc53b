import HybridCompile.Proofs.Calibration.Repeatability

/-!
# HybridCompile — compiling again with a cache

A calibrator that has a cache but no data of its own leaves one text in its cache, if it is used at
all. Compiled with that cache again, a graph gives the same executable; and where the calibrator was
not used, any other cache would have done.

* `build_unused`, `compile_unused` — a calibrator that nobody looks at.
* `compile_reuse` — the same executable again.
-/

namespace HybridCompile

section

variable {g : ValidGraph} {s : Settings} {session : Session} {plan : Plan} {signal : Bool}

/-! ## A calibrator that is not used -/

/-- Without int8 no backend gets a calibrator. -/
theorem usedCalibrator_unused (hint8 : s.int8Enabled = false) (c? : Option Calibrator) :
    ({ s with calibrator := c? } : Settings).usedCalibrator = s.usedCalibrator := by
  have hint8' : ({ s with calibrator := c? } : Settings).int8Enabled = false := hint8
  rw [Settings.usedCalibrator, Settings.usedCalibrator, hint8, hint8']
  rfl

/-- Without int8 a backend is told the same whatever the calibrator. -/
theorem ofSettings_unused (hint8 : s.int8Enabled = false) (c? : Option Calibrator) :
    EngineOptions.ofSettings { s with calibrator := c? } = .ofSettings s := by
  unfold EngineOptions.ofSettings
  rw [usedCalibrator_unused hint8]

/-- Without int8 a build does not look at the calibrator, and hands it on: `build` is unfolded to
its three ends, and `usedCalibrator` is the only place where they could differ. -/
theorem build_unused (hint8 : s.int8Enabled = false) (backend : Backend) (r : Region)
    (budget : BuildBudget) (c? : Option Calibrator) :
    build backend g r { s with calibrator := c? } budget signal =
      { build backend g r s budget signal with calibrator := c? } := by
  have hlower : lower g r { s with calibrator := c? } = lower g r s := rfl
  have hint8' : ({ s with calibrator := c? } : Settings).int8Enabled = false := hint8
  unfold build buildIn
  rw [hlower]
  cases lower g r s with
  | error e => rfl
  | ok n =>
    dsimp only
    cases budget.check signal 0 with
    | some cause => rfl
    | none =>
      unfold buildNetwork
      rw [ofSettings_unused hint8, usedCalibrator_unused hint8, hint8, hint8']
      rfl

theorem add_calibrator (p : Progress) (region : Nat) (result : BuildResult)
    (c? : Option Calibrator) :
    { p with calibrator := c? }.add region { result with calibrator := c? } =
      { p.add region result with calibrator := c? } := by
  unfold Progress.add
  cases result.outcome <;> rfl

/-- Without int8 one more build does the same, and hands the calibrator on. -/
theorem buildNext_unused (hint8 : s.int8Enabled = false) (c? : Option Calibrator) (p : Progress)
    (r : Region) :
    session.buildNext g { s with calibrator := c? } { p with calibrator := c? } r =
      { session.buildNext g s p r with calibrator := c? } := by
  have hbuild : ∀ d? : Option Calibrator, build session.backend g r { s with calibrator := d? }
        (session.budget p.error?.isSome) p.signal =
      { build session.backend g r s (session.budget p.error?.isSome) p.signal with
        calibrator := d? } :=
    build_unused hint8 session.backend r _
  show Progress.add { p with calibrator := c? } r.index (build session.backend g r
    { s with calibrator := c? } (session.budget p.error?.isSome) p.signal) = _
  unfold Session.buildNext
  rw [hbuild c?, hbuild p.calibrator]
  exact add_calibrator p r.index { build session.backend g r s (session.budget p.error?.isSome)
    p.signal with calibrator := p.calibrator } c?

/-- Without int8 all builds do the same, and hand the calibrator on. Induction on the order, over
every progress made before. -/
theorem buildEach_unused (hint8 : s.int8Enabled = false) (c? : Option Calibrator)
    (order : List Region) :
    session.buildEach g { s with calibrator := c? } signal order =
      { session.buildEach g s signal order with calibrator := c? } := by
  have hfold : ∀ p : Progress,
      order.foldl (session.buildNext g { s with calibrator := c? }) { p with calibrator := c? } =
        { order.foldl (session.buildNext g s) p with calibrator := c? } := by
    induction order with
    | nil => exact fun _ => rfl
    | cons r rest ih =>
      intro p
      rw [List.foldl_cons, buildNext_unused hint8, ih]
      rfl
  exact hfold (.start s signal)

/-- What is put together does not depend on the calibrator that is left. -/
theorem assemble_calibrator (plan : Plan) (p : Progress) (c? : Option Calibrator) :
    Session.assemble g plan { p with calibrator := c? } = Session.assemble g plan p := by
  have hregions : ∀ (regions : List Region) (m : Metrics),
      Session.assembleRegions { p with calibrator := c? } m regions =
        Session.assembleRegions p m regions := by
    intro regions
    induction regions with
    | nil => exact fun _ => rfl
    | cons r rest ih =>
      intro m
      unfold Session.assembleRegions
      simp only [ih]
      rfl
  unfold Session.assemble
  simp only [hregions]

/-- Nobody looks at the calibrator where no engine is for int8, or no engine is built. Either way
`buildEach` leaves what it was given, and `assemble` passes it on. -/
theorem compile_unused (signal : Bool) (c' : Calibrator) (hplan : session.plan g s = .ok plan)
    (hsemaphore : session.config.hasSemaphore = true)
    (hunused : s.int8Enabled = false ∨ plan.acceleratorRegions = []) :
    (session.compile g { s with calibrator := some c' } signal).outcome =
        (session.compile g s signal).outcome ∧
      (session.compile g { s with calibrator := some c' } signal).progress.calibrator = some c' := by
  have hplan' : session.plan g { s with calibrator := some c' } = .ok plan := hplan
  have hbuilds : session.buildEach g { s with calibrator := some c' } signal
        plan.acceleratorRegions =
      { session.buildEach g s signal plan.acceleratorRegions with calibrator := some c' } := by
    rcases hunused with hint8 | hnone
    · exact buildEach_unused hint8 (some c') _
    · rw [hnone]
      rfl
  unfold Session.compile
  rw [compileInOrder_of_plan hplan hsemaphore, compileInOrder_of_plan hplan' hsemaphore]
  dsimp only [id]
  rw [hbuilds, assemble_calibrator]
  exact ⟨rfl, rfl⟩

end

/-! ## The same executable again -/

section

variable {g : ValidGraph} {s : Settings} {session : Session} {b : ReferenceBackend}
variable {signal : Bool} {e : Executable} {name : String} {size : Nat} {content : Option Bytes}

/-- The first build fills the cache. -/
theorem exists_after_ofCache (name : String) (size : Nat) (content : Option Bytes)
    {regions : List Region} (hsome : regions ≠ []) :
    ∃ bytes, (Calibrator.ofCache name size content).after regions =
      .ofCache name size (some bytes) := by
  obtain ⟨first, rest, rfl⟩ := List.exists_cons_of_ne_nil hsome
  have hkeeps : (Calibrator.ofCache name size content).cache = .keeps content := rfl
  refine ⟨content.getD (Utf8.encode (Calibrator.ofCache name size content).calibrate.1), ?_⟩
  refine (calibrate_snd_of_keeps hkeeps).trans ?_
  cases content <;> rfl

/-- Where engines for int8 are built, the cache that is left gives the same again. The calibrator
after the first compilation keeps its text (`Calibrator.after_of_keeps`), so `compile_eq_ok_iff`
makes the second out of the same builds, and `Calibrator.after_again` leaves it as it is. -/
theorem compile_filled (h : g.Sound) (hbackend : session.backend = b.toBackend)
    (hint8 : s.int8Enabled = true) (hc : s.calibrator = some (.ofCache name size content))
    {plan : Plan} (hplan : session.plan g s = .ok plan) (hsome : plan.acceleratorRegions ≠ [])
    (hok : (session.compile g s signal).outcome = .ok e) :
    ∃ bytes, (session.compile g s signal).progress.calibrator =
        some (.ofCache name size (some bytes)) ∧
      (session.compile g { s with calibrator := some (.ofCache name size (some bytes)) }
          signal).outcome = .ok e ∧
      (session.compile g { s with calibrator := some (.ofCache name size (some bytes)) }
          signal).progress.calibrator = some (.ofCache name size (some bytes)) := by
  have hkeeps : (Calibrator.ofCache name size content).cache = .keeps content := rfl
  have horder : ∀ rs : List Region, (id rs).Perm rs := fun rs => .refl rs
  obtain ⟨hsemaphore, plan', artifacts, hplan', rfl, hmade⟩ :=
    (compile_eq_ok_iff h hbackend hint8 hc hkeeps horder).mp hok
  obtain rfl : plan' = plan := Except.ok.inj (hplan'.symm.trans hplan)
  obtain ⟨bytes, hafter⟩ := exists_after_ofCache name size content hsome
  -- with that cache the calibrator finds the same, and keeps it
  obtain ⟨-, hname, hsame⟩ := Calibrator.after_of_keeps hkeeps (id plan'.acceleratorRegions)
  rw [id, hafter] at hname hsame
  obtain ⟨s', hs'⟩ : ∃ s' : Settings,
      s' = { s with calibrator := some (.ofCache name size (some bytes)) } := ⟨_, rfl⟩
  have hint8' : s'.int8Enabled = true := by rw [hs']; exact hint8
  have hc' : s'.calibrator = some (.ofCache name size (some bytes)) := by rw [hs']
  have hkeeps' : (Calibrator.ofCache name size (some bytes)).cache = .keeps (some bytes) := rfl
  have hplan'' : session.plan g s' = .ok plan' := by
    rw [hs']
    exact hplan
  have hmade' : MadeOf session g s' signal (.ofCache name size (some bytes)) plan' artifacts := by
    rw [hs']
    exact madeOf_of_same hbackend hint8 hc hname (congrArg Prod.fst hsame) hmade
  refine ⟨bytes, ?_⟩
  rw [← hs']
  refine ⟨?_, ?_, ?_⟩
  · rw [← hafter]
    exact calibrator_compile h hbackend hint8 hc hplan hsemaphore horder hmade
  · exact (compile_eq_ok_iff h hbackend hint8' hc' hkeeps' horder).mpr
      ⟨hsemaphore, plan', artifacts, hplan'', rfl, hmade'⟩
  · refine (calibrator_compile h hbackend hint8' hc' hplan'' hsemaphore horder hmade').trans ?_
    rw [← hafter]
    exact congrArg some (Calibrator.after_again _ (.refl _))

/-- A calibrator with a cache and no data leaves a cache. With that cache the same executable comes
out, and the cache stays as it is; if nothing was put into it any other cache would do as well. -/
theorem compile_reuse (h : g.Sound) (hbackend : session.backend = b.toBackend)
    (hc : s.calibrator = some (.ofCache name size content))
    (hok : (session.compile g s signal).outcome = .ok e) :
    ∃ left, (session.compile g s signal).progress.calibrator = some (.ofCache name size left) ∧
      ∀ content', (left = none ∨ content' = left) →
        (session.compile g { s with calibrator := some (.ofCache name size content') }
            signal).outcome = .ok e ∧
          (session.compile g { s with calibrator := some (.ofCache name size content') }
            signal).progress.calibrator = some (.ofCache name size content') := by
  obtain ⟨⟨plan, hplan⟩, hsemaphore⟩ := exists_plan_of_compile hok
  by_cases hunused : s.int8Enabled = false ∨ plan.acceleratorRegions = []
  · have hsame : { s with calibrator := some (.ofCache name size content) } = s := by
      rw [← hc]
    have hself := compile_unused signal (.ofCache name size content) hplan hsemaphore hunused
    rw [hsame] at hself
    refine ⟨content, hself.2, fun content' _ => ?_⟩
    obtain ⟨houtcome, hcalibrator⟩ :=
      compile_unused signal (.ofCache name size content') hplan hsemaphore hunused
    exact ⟨houtcome.trans hok, hcalibrator⟩
  · obtain ⟨hint8, hsome⟩ := not_or.mp hunused
    obtain ⟨bytes, hleft, hagain⟩ :=
      compile_filled h hbackend (by simpa using hint8) hc hplan hsome hok
    refine ⟨some bytes, hleft, fun content' hcontent => ?_⟩
    obtain rfl := hcontent.resolve_left (by simp)
    exact hagain

end

end HybridCompile
