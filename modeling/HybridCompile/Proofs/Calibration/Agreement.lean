import HybridCompile.Proofs.Calibration.Calibrating
import HybridCompile.Proofs.Compile.Assembly
import HybridCompile.Proofs.Partition.Placement

/-!
# HybridCompile — which calibration the engines get

The engines of a compilation share one calibrator. The first build takes the calibration data; what
the others find depends on the cache. With a cache that is kept all engines get the same calibration,
without one only the first gets any.

* `Calibrator.before`, `Calibrator.after` — the calibrator over the builds of a compilation.
* `tally_calibrated`, `compile_calibrated_cases` — each build, and the whole.
* `compile_embeds_first` — what is embedded in the engines.
-/

namespace HybridCompile

/-- A session with the reference backend. -/
def Session.ofReference (oracle : Oracle) (b : ReferenceBackend) (config : Config) : Session :=
  ⟨oracle, b.toBackend, config⟩

/-- The calibrator as the build of a region finds it. -/
def Calibrator.before (c : Calibrator) (order : List Region) (r : Region) : Calibrator :=
  if order.head? = some r then c else c.calibrate.2

/-- The calibrator after some builds that all went well. -/
def Calibrator.after (c : Calibrator) : List Region → Calibrator
  | [] => c
  | _ :: _ => c.calibrate.2

section

variable {session : Session} {g : ValidGraph} {s : Settings} {signal : Bool} {c c' : Calibrator}
variable {order : List Region} {r : Region}

/-- How the build of a region comes out with a calibrator, when none before it has failed. -/
def Session.buildWith (session : Session) (g : ValidGraph) (s : Settings) (signal : Bool)
    (c : Calibrator) (r : Region) : Except BuildError Artifact :=
  (build session.backend g r { s with calibrator := some c } (session.budget false) signal).outcome

variable {b : ReferenceBackend}

/-- What the calibrator finds is all of it that makes a difference to a build. -/
theorem buildWith_cases (hbackend : session.backend = b.toBackend) (hint8 : s.int8Enabled = true)
    (hc : s.calibrator = some c) (signal : Bool) (r : Region) :
    (∃ e, ∀ c', c'.name = c.name → session.buildWith g s signal c' r = .error e) ∨
      ∃ artifact : String → Artifact, (∀ text, EmbedsCalibration g s text r (artifact text)) ∧
        ∀ c', c'.name = c.name → session.buildWith g s signal c' r = .ok (artifact c'.calibrate.1) := by
  unfold Session.buildWith
  rw [hbackend]
  rcases build_calibrated_cases b g r hint8 hc (session.budget false) signal with
    herror | ⟨artifact, hembeds, hok⟩
  · exact Or.inl herror
  · exact Or.inr ⟨artifact, hembeds, fun c' hname => (hok c' hname).1⟩

/-- One build keeps the tally of calibrated builds. `build_calibrated_cases` says how it ends and
what it leaves of the calibrator: used up, as far as it was not before. -/
theorem keepsTally_calibrated (hbackend : session.backend = b.toBackend)
    (hint8 : s.int8Enabled = true) (hc : s.calibrator = some c) (hr : r ∈ order)
    (hbefore : c.before order r = c') (hname : c'.name = c.name)
    (hused : c'.calibrate.2 = c.calibrate.2) :
    KeepsTally (fun p => p.signal = signal ∧ p.calibrator = some c')
      (fun p => p.signal = signal ∧ p.calibrator = some c.calibrate.2)
      (fun r a => session.buildWith g s signal (c.before order r) r = .ok a)
      (fun _ => ∃ r ∈ order, ∃ e, session.buildWith g s signal c r = .error e) session g s r := by
  intro p _ hp result hresult
  obtain ⟨hsignal, hcalibrator⟩ := hp
  rw [hcalibrator, hsignal, hbackend] at hresult
  subst hresult
  refine ⟨fun a ha => ⟨⟨?_, ?_⟩, ?_⟩, fun e he => ⟨r, hr, ?_⟩⟩
  · rw [(add_shared _ _ _).1]
    exact build_signal (calm_reference b)
  · rw [(add_shared _ _ _).2]
    rcases build_calibrated_cases b g r hint8 hc (session.budget false) signal with
      ⟨e, herror⟩ | ⟨artifact, -, hok⟩
    · rw [herror c' hname] at ha
      cases ha
    · rw [(hok c' hname).2, hused]
  · show session.buildWith g s signal (c.before order r) r = .ok a
    rw [hbefore, Session.buildWith, hbackend]
    exact ha
  · rcases buildWith_cases (g := g) hbackend hint8 hc signal r with ⟨e, herror⟩ | ⟨artifact, -, hok⟩
    · exact ⟨e, herror c rfl⟩
    · have hok := hok c' hname
      rw [Session.buildWith, hbackend, he] at hok
      cases hok

/-- All builds keep the tally. The first finds the calibrator as it is given; every later one, by
`Tally.foldl`, finds it used, because no region is built twice. -/
theorem tally_calibrated (hbackend : session.backend = b.toBackend) (hint8 : s.int8Enabled = true)
    (hc : s.calibrator = some c) (hnodup : order.Nodup) :
    Tally (fun p => p.signal = signal ∧ p.calibrator = some (c.after order))
      (fun r a => session.buildWith g s signal (c.before order r) r = .ok a)
      (fun _ => ∃ r ∈ order, ∃ e, session.buildWith g s signal c r = .error e) order
      (session.buildEach g s signal order) := by
  cases order with
  | nil => exact .start ⟨rfl, hc⟩
  | cons first rest =>
    have hstart : Tally (fun p => p.signal = signal ∧ p.calibrator = some c)
        (fun r a => session.buildWith g s signal (c.before (first :: rest) r) r = .ok a)
        (fun _ => ∃ r ∈ first :: rest, ∃ e, session.buildWith g s signal c r = .error e) []
        (.start s signal) := .start ⟨rfl, hc⟩
    have hfirst := hstart.buildNext (keepsTally_calibrated (g := g) hbackend hint8 hc
      List.mem_cons_self (if_pos rfl) rfl rfl)
    -- no region is built twice, so every later build finds the calibrator used
    refine hfirst.foldl fun r hr => ?_
    have hlater : c.before (first :: rest) r = c.calibrate.2 := by
      refine if_neg fun hsame => ?_
      have hmem : first ∈ rest := by
        rw [Option.some.inj hsame]
        exact hr
      exact (List.nodup_cons.mp hnodup).1 hmem
    exact keepsTally_calibrated hbackend hint8 hc (List.mem_cons_of_mem first hr) hlater
      c.calibrate_name c.calibrate_again

/-! ## Compilations -/

variable {plan : Plan}

/-- A compilation ends with what each build makes of the calibrator as it finds it, unless the build
of some region fails whatever it finds. -/
theorem compile_calibrated_cases (h : g.Sound) (hplan : session.plan g s = .ok plan)
    (hsemaphore : session.config.hasSemaphore = true) (hbackend : session.backend = b.toBackend)
    (hint8 : s.int8Enabled = true) (hc : s.calibrator = some c) {order : List Region → List Region}
    (horder : ∀ rs, (order rs).Perm rs) (signal : Bool) :
    (∃ artifacts, List.Forall₂ (Gets fun r a =>
          session.buildWith g s signal (c.before (order plan.acceleratorRegions) r) r = .ok a)
          plan.regions artifacts ∧
        (session.compileInOrder order g s signal).outcome = .ok (.ofPlan g plan artifacts)) ∨
      (∃ e, (session.compileInOrder order g s signal).outcome = .error e) ∧
        ∃ r ∈ plan.acceleratorRegions, ∃ e, session.buildWith g s signal c r = .error e := by
  have hnodup := nodup_order h.operators_ne_nil hplan horder
  have htally : Tally _ _ _ _ (session.buildEach g s signal (order plan.acceleratorRegions)) :=
    tally_calibrated hbackend hint8 hc hnodup
  have hengine : ∀ r a, session.buildWith g s signal
      (c.before (order plan.acceleratorRegions) r) r = .ok a → a.isEngine = true := by
    intro r a ha
    obtain ⟨bytes, report, rfl, -⟩ := eq_engine_of_build ha
    rfl
  rcases htally.compile_cases h hplan hsemaphore horder hengine with
    hok | ⟨e, herror, r, hr, hfails⟩
  · exact Or.inl hok
  · exact Or.inr ⟨⟨e, herror⟩, r, (horder _).mem_iff.mp hr, hfails⟩

/-- What is embedded in the engine of a region, when the calibrator is as the build finds it. -/
theorem embeds_of_buildWith (hbackend : session.backend = b.toBackend)
    (hint8 : s.int8Enabled = true) (hc : s.calibrator = some c) (hname : c'.name = c.name)
    {a : Artifact} (h : session.buildWith g s signal c' r = .ok a) :
    EmbedsCalibration g s c'.calibrate.1 r a := by
  rcases buildWith_cases (g := g) hbackend hint8 hc signal r with
    ⟨e, herror⟩ | ⟨artifact, hembeds, hok⟩
  · rw [herror c' hname] at h
    cases h
  · rw [hok c' hname] at h
    cases h
    exact hembeds _

/-- The engine of the region that is built first gets what the calibrator finds, and each other
engine gets what it finds once it is used. -/
theorem embeds_of_before (hbackend : session.backend = b.toBackend) (hint8 : s.int8Enabled = true)
    (hc : s.calibrator = some c) {a : Artifact}
    (h : session.buildWith g s signal (c.before order r) r = .ok a) :
    EmbedsCalibration g s
      (if order.head? = some r then c.calibrate.1 else c.calibrate.2.calibrate.1) r a := by
  by_cases hfirst : order.head? = some r
  · rw [Calibrator.before, if_pos hfirst] at h
    rw [if_pos hfirst]
    exact embeds_of_buildWith hbackend hint8 hc rfl h
  · rw [Calibrator.before, if_neg hfirst] at h
    rw [if_neg hfirst]
    exact embeds_of_buildWith hbackend hint8 hc c.calibrate_name h

end

/-! ## Agreement -/

section

variable {g : ValidGraph} {s : Settings} {plan : Plan} {order : List Region}
variable {artifacts : List Artifact} {first later : String}

/-- Engines of which one is calibrated by itself agree when there is no other, or when that makes no
difference. An engine has one calibration, so there is no other way. -/
theorem agree_iff (hperm : order.Perm plan.acceleratorRegions)
    (hnodup : plan.acceleratorRegions.Nodup)
    (h : List.Forall₂ (Gets fun r a => EmbedsCalibration g s
      (if order.head? = some r then first else later) r a) plan.regions artifacts) :
    (∃ text, List.Forall₂ (Gets (EmbedsCalibration g s text)) plan.regions artifacts) ↔
      plan.acceleratorRegions.length ≤ 1 ∨ first = later := by
  have hmem : ∀ r ∈ order, r ∈ plan.regions ∧ r.isAccelerator = true := fun r hr =>
    List.mem_filter.mp (hperm.mem_iff.mp hr)
  constructor
  · rintro ⟨text, hall⟩
    have htext : ∀ r ∈ order, text = if order.head? = some r then first else later := by
      intro r hr
      obtain ⟨hregion, haccelerator⟩ := hmem r hr
      obtain ⟨a, htext, hpicked⟩ := exists_both hall h hregion
      rw [Gets, if_pos haccelerator] at htext hpicked
      exact embedsCalibration_unique htext hpicked
    clear hall h
    rw [← hperm.length_eq]
    cases order with
    | nil => exact Or.inl (Nat.zero_le 1)
    | cons r others =>
      cases others with
      | nil => exact Or.inl (Nat.le_refl 1)
      | cons r' rest =>
        -- two engines: the first is calibrated by itself, the second as all others
        have hne : r ≠ r' := by
          have hnodup' := hperm.nodup_iff.mpr hnodup
          exact fun heq => (List.nodup_cons.mp hnodup').1 (heq ▸ List.mem_cons_self)
        have hfirst := htext r List.mem_cons_self
        have hlater := htext r' (List.mem_cons_of_mem r List.mem_cons_self)
        rw [List.head?_cons, if_pos rfl] at hfirst
        rw [List.head?_cons, if_neg fun heq => hne (Option.some.inj heq)] at hlater
        exact Or.inr (hfirst.symm.trans hlater)
  · rintro (hone | heq)
    · -- the one engine is the one that is built first
      refine ⟨first, (List.forall₂_and_left _ _).mpr ⟨fun r hr => hr, h⟩ |>.imp ?_⟩
      rintro r a ⟨hr, hget⟩
      unfold Gets at hget ⊢
      split
      · next haccelerator =>
        have hin : r ∈ order := hperm.mem_iff.mpr (List.mem_filter.mpr ⟨hr, haccelerator⟩)
        rw [← hperm.length_eq] at hone
        obtain ⟨r', hsingle⟩ : ∃ r', order = [r'] := by
          refine List.length_eq_one_iff.mp (Nat.le_antisymm hone ?_)
          exact List.length_pos_of_mem hin
        rw [hsingle, List.mem_singleton] at hin
        subst hin
        rwa [if_pos haccelerator, hsingle, List.head?_cons, if_pos rfl] at hget
      · next hgeneral => rwa [if_neg hgeneral] at hget
    · refine ⟨first, h.imp fun r a hget => hget.imp fun a ha => ?_⟩
      rwa [← heq, ite_self] at ha

end

section

variable {raw : Graph} {g : ValidGraph} {s : Settings} {c : Calibrator} {oracle : Oracle}
variable {b : ReferenceBackend} {config : Config} {signal : Bool} {executable : Executable}
variable {order : List Region → List Region}

/-- The engines of an executable, each with what its build has found, whichever order they were
built in. -/
theorem embeds_of_compile (h : g.Sound) (hint8 : s.int8Enabled = true) (hc : s.calibrator = some c)
    (horder : ∀ rs, (order rs).Perm rs)
    (hok : ((Session.ofReference oracle b config).compileInOrder order g s signal).outcome =
      .ok executable) :
    ∃ plan artifacts, (Session.ofReference oracle b config).plan g s = .ok plan ∧
      executable = .ofPlan g plan artifacts ∧
      List.Forall₂ (Gets fun r a => EmbedsCalibration g s
        (if (order plan.acceleratorRegions).head? = some r then c.calibrate.1
          else c.calibrate.2.calibrate.1) r a) plan.regions artifacts := by
  obtain ⟨⟨plan, hplan⟩, hsemaphore⟩ := exists_plan_of_compile hok
  rcases compile_calibrated_cases h hplan hsemaphore rfl hint8 hc horder signal with
    ⟨artifacts, hgets, hcompiled⟩ | ⟨⟨e, herror⟩, -⟩
  · rw [hcompiled] at hok
    cases hok
    exact ⟨plan, artifacts, hplan, rfl,
      hgets.imp fun r a hget => hget.imp fun a => embeds_of_before rfl hint8 hc⟩
  · rw [herror] at hok
    cases hok

/-- The engine that is built first gets what the calibrator finds, and all others get what it finds
once it is used. So they agree when there is one engine at most, or when the calibrator finds the same
again; it does if it keeps its cache, and finds no batch any more if it does not. -/
theorem compile_embeds_first (h : raw.validate = .ok g) (hint8 : s.int8Enabled = true)
    (hc : s.calibrator = some c) (horder : ∀ rs, (order rs).Perm rs) (oracle : Oracle)
    (b : ReferenceBackend) (config : Config) (signal : Bool) :
    (∀ executable, ((Session.ofReference oracle b config).compileInOrder order g s
        signal).outcome = .ok executable →
      ∃ plan artifacts, (Session.ofReference oracle b config).plan g s = .ok plan ∧
        executable = .ofPlan g plan artifacts ∧
        List.Forall₂ (Gets fun r a => EmbedsCalibration g s
          (if (order plan.acceleratorRegions).head? = some r then c.calibrate.1
            else c.calibrate.2.calibrate.1) r a) plan.regions artifacts ∧
        ((∃ text, List.Forall₂ (Gets (EmbedsCalibration g s text)) plan.regions artifacts) ↔
          plan.acceleratorRegions.length ≤ 1 ∨ c.calibrate.1 = c.calibrate.2.calibrate.1)) ∧
      (∀ initial, c.cache = .keeps initial → c.calibrate.1 = c.calibrate.2.calibrate.1) ∧
      (c.cache = .forgets → c.calibrate.1 = calibrationText c.batches ∧
        c.calibrate.2.calibrate.1 = "batches=0;abs_max=0") := by
  have hsound := Graph.sound_of_validate h
  refine ⟨fun executable hok => ?_, fun initial hkeeps => ?_, fun hforgets => ⟨?_, ?_⟩⟩
  · obtain ⟨plan, artifacts, hplan, heq, hembeds⟩ := embeds_of_compile hsound hint8 hc horder hok
    have hnodup := nodup_acceleratorRegions hsound.operators_ne_nil hplan
    exact ⟨plan, artifacts, hplan, heq, hembeds, agree_iff (horder _) hnodup hembeds⟩
  · rw [Calibrator.calibrate_of_keeps hkeeps]
  · rw [Calibrator.calibrate_of_forgets hforgets]
  · have hused : Calibrator.calibrate { c with batches := [] } = _ :=
      Calibrator.calibrate_of_forgets hforgets
    rw [Calibrator.calibrate_of_forgets hforgets, hused]
    exact calibrationText_nil

end

/-! ## An instance

A calibrator with one batch and no cache, for a graph with two regions for the accelerator. -/

/-- Settings for int8 with a calibrator that has one batch and no cache. -/
def forgetful : Settings :=
  { skippingSettings with
    precisions := [.int8]
    calibrator := some ⟨"samples", 1, [[.signed true .infinite]], .forgets⟩
    calibrationMode := .postTraining }

/-- A session with the reference backend in which every operator is supported. -/
def calibratingSession : Session := .ofReference SupportTable.acceptAll.toOracle .default .default

/-- Built backwards, the last region gets the data and the first one gets none. -/
theorem compile_embeds_first_skipping :
    skipping.validate = .ok skippingValid ∧ forgetful.int8Enabled = true ∧
      forgetful.calibrator = some ⟨"samples", 1, [[.signed true .infinite]], .forgets⟩ ∧
      (∀ rs : List Region, rs.reverse.Perm rs) ∧
      ∃ executable plan artifacts, (calibratingSession.compileInOrder List.reverse skippingValid
          forgetful false).outcome = .ok executable ∧
        executable = .ofPlan skippingValid plan artifacts ∧
        List.Forall₂ (Gets fun r a => EmbedsCalibration skippingValid forgetful
          (if plan.acceleratorRegions.reverse.head? = some r then "batches=1;abs_max=inf"
            else "batches=0;abs_max=0") r a) plan.regions artifacts := by
  have hvalid : skipping.validate = .ok skippingValid := by decide
  obtain ⟨hall, -, hforgets⟩ := compile_embeds_first (s := forgetful) hvalid rfl rfl
    List.reverse_perm SupportTable.acceptAll.toOracle .default .default false
  obtain ⟨hfirst, hlater⟩ := hforgets rfl
  obtain ⟨executable, hok⟩ := CompileOutcome.exists_eq_ok_of_isOk
    (show (calibratingSession.compileInOrder List.reverse skippingValid forgetful
      false).outcome.isOk = true by decide +kernel)
  obtain ⟨plan, artifacts, -, heq, hembeds, -⟩ := hall executable hok
  have htext : calibrationText [[.signed true .infinite]] = "batches=1;abs_max=inf" := by decide
  rw [hfirst, hlater, htext] at hembeds
  exact ⟨hvalid, rfl, rfl, List.reverse_perm, executable, plan, artifacts, hok, heq, hembeds⟩

/-- Two engines of one compilation that are not calibrated from the same data. -/
theorem Session.compile_disagrees :
    skipping.validate = .ok skippingValid ∧ forgetful.int8Enabled = true ∧
      ∃ executable artifacts, (calibratingSession.compile skippingValid forgetful false).outcome =
          .ok executable ∧
        executable = .ofPlan skippingValid skippingPlan artifacts ∧
        ¬∃ text, List.Forall₂ (Gets (EmbedsCalibration skippingValid forgetful text))
          skippingPlan.regions artifacts := by
  have hvalid : skipping.validate = .ok skippingValid := by decide
  have hsound := Graph.sound_of_validate hvalid
  have hplan : calibratingSession.plan skippingValid forgetful = .ok skippingPlan := by
    decide +kernel
  obtain ⟨executable, hok⟩ := CompileOutcome.exists_eq_ok_of_isOk
    (show (calibratingSession.compile skippingValid forgetful false).outcome.isOk = true by
      decide +kernel)
  obtain ⟨plan, artifacts, hplan', heq, hembeds⟩ :=
    embeds_of_compile (s := forgetful) hsound rfl rfl (fun rs => .refl rs) hok
  obtain rfl : plan = skippingPlan := Except.ok.inj (hplan'.symm.trans hplan)
  refine ⟨hvalid, rfl, executable, artifacts, hok, heq, fun hagree => ?_⟩
  have hnodup := nodup_acceleratorRegions hsound.operators_ne_nil hplan
  have hdiffer : calibrationText [[.signed true .infinite]] ≠ calibrationText [] := by decide
  rcases (agree_iff (.refl _) hnodup hembeds).mp hagree with hone | hsame
  · exact absurd hone (by decide +kernel)
  · exact hdiffer hsame

end HybridCompile
