import HybridCompile.Proofs.Engine.Builds
import HybridCompile.Proofs.Engine.Image
import HybridCompile.Proofs.Engine.Steps
import HybridCompile.Proofs.Text.Lossy

/-!
# HybridCompile — calibrating

What a build does to its calibrator, and what the calibrator does to the engine. No build changes the
calibrator's name, which is all that a backend is told of it. The reference backend looks at it once,
when nothing can fail any more: it takes what is in the cache, or else every batch that is left.

* `largestSize_isLargest` — the number that is found in some batches.
* `Calibrator.calibrate` — what is embedded, and the calibrator afterwards.
* `Work.Calibrates`, `calibrates_reference` — the reference backend's work.
* `build_calibrated_cases` — its builds.
-/

namespace HybridCompile

/-! ## The largest size -/

/-- At most as large. -/
def Number.Magnitude.Le : Number.Magnitude → Number.Magnitude → Prop
  | _, .infinite => True
  | .finite a, .finite b => a ≤ b
  | .infinite, .finite _ => False

/-- The largest size among the samples of some batches, or zero; what is not a number has none. -/
structure IsLargestSize (batches : List (List Number.Sample)) (m : Number.Magnitude) : Prop where
  le : ∀ batch ∈ batches, ∀ sample ∈ batch, ∀ size, sample.size? = some size → size.Le m
  attained : m = .finite 0 ∨ ∃ batch ∈ batches, ∃ sample ∈ batch, sample.size? = some m

namespace Number.Magnitude

theorem le_refl (a : Magnitude) : a.Le a := by
  cases a with
  | finite steps => exact Nat.le_refl steps
  | infinite => exact True.intro

/-- The order of sizes is transitive, and nothing is above the infinite one. -/
theorem le_trans {a b c : Magnitude} (hab : a.Le b) (hbc : b.Le c) : a.Le c := by
  cases c with
  | infinite => exact True.intro
  | finite z =>
    cases b with
    | infinite => exact hbc.elim
    | finite y =>
      cases a with
      | infinite => exact hab.elim
      | finite x => exact Nat.le_trans hab hbc

theorem le_max (a b : Magnitude) : a.Le (a.max b) ∧ b.Le (a.max b) := by
  cases a <;> cases b
  · exact ⟨Nat.le_max_left _ _, Nat.le_max_right _ _⟩
  all_goals exact ⟨True.intro, True.intro⟩

/-- The larger of two sizes is one of them. -/
theorem max_eq_or (a b : Magnitude) : a.max b = a ∨ a.max b = b := by
  cases a with
  | infinite => exact Or.inl rfl
  | finite x =>
    cases b with
    | infinite => exact Or.inr rfl
    | finite y =>
      rcases Nat.le_total x y with h | h
      · exact Or.inr (congrArg Magnitude.finite (Nat.max_eq_right h))
      · exact Or.inl (congrArg Magnitude.finite (Nat.max_eq_left h))

/-- What a fold ends with is at least where it began and at least each size, and is one of them.
Induction on the sizes, over all sizes to begin with. -/
theorem foldl_max (sizes : List Magnitude) (first : Magnitude) :
    (first.Le (sizes.foldl max first) ∧ ∀ size ∈ sizes, size.Le (sizes.foldl max first)) ∧
      (sizes.foldl max first = first ∨ sizes.foldl max first ∈ sizes) := by
  induction sizes generalizing first with
  | nil => exact ⟨⟨le_refl first, by simp⟩, Or.inl rfl⟩
  | cons size rest ih =>
    obtain ⟨⟨hfirst, hrest⟩, hend⟩ := ih (first.max size)
    obtain ⟨hleft, hright⟩ := le_max first size
    refine ⟨⟨le_trans hleft hfirst, ?_⟩, ?_⟩
    · exact List.forall_mem_cons.mpr ⟨le_trans hright hfirst, hrest⟩
    · rw [List.foldl_cons]
      rcases hend with hend | hend
      · rw [hend]
        rcases max_eq_or first size with h | h
        · exact Or.inl h
        · exact Or.inr (by rw [h]; exact List.mem_cons_self)
      · exact Or.inr (List.mem_cons_of_mem _ hend)

end Number.Magnitude

/-- The number `largestSize` that is found in batches is the largest size of their samples. All
batches are one list of samples, and what is not a number is left out of it. -/
theorem largestSize_isLargest (batches : List (List Number.Sample)) :
    IsLargestSize batches (largestSize batches) := by
  obtain ⟨⟨-, hle⟩, hend⟩ := Number.Magnitude.foldl_max
    (batches.flatten.filterMap Number.Sample.size?) (.finite 0)
  refine ⟨fun batch hbatch sample hsample size hsize => ?_, ?_⟩
  · exact hle size (List.mem_filterMap.mpr
      ⟨sample, List.mem_flatten.mpr ⟨batch, hbatch, hsample⟩, hsize⟩)
  · refine hend.imp_right fun hmem => ?_
    obtain ⟨sample, hsample, hsize⟩ := List.mem_filterMap.mp hmem
    obtain ⟨batch, hbatch, hsample⟩ := List.mem_flatten.mp hsample
    exact ⟨batch, hbatch, sample, hsample, hsize⟩

theorem calibrationText_nil : calibrationText [] = "batches=0;abs_max=0" := by
  decide

/-! ## Calibrators -/

namespace Calibrator

/-- What the reference backend finds with a calibrator, and how it leaves the calibrator. -/
def calibrate (c : Calibrator) : String × Calibrator :=
  match c.readCache with
  | some content => (Utf8.decodeLossy content, c)
  | none =>
    (calibrationText c.batches, c.drain.2.writeCache (Utf8.encode (calibrationText c.batches)))

variable {c : Calibrator}

theorem calibrate_of_primed {content : Bytes} (h : c.cache = .keeps (some content)) :
    c.calibrate = (Utf8.decodeLossy content, c) := by
  unfold calibrate readCache
  rw [h]

theorem calibrate_of_empty (h : c.cache = .keeps none) :
    c.calibrate = (calibrationText c.batches,
      { c with
        batches := []
        cache := .keeps (some (Utf8.encode (calibrationText c.batches))) }) := by
  unfold calibrate readCache drain writeCache
  rw [h]

theorem calibrate_of_forgets (h : c.cache = .forgets) :
    c.calibrate = (calibrationText c.batches, { c with batches := [] }) := by
  unfold calibrate readCache drain writeCache
  rw [h]

theorem calibrate_name (c : Calibrator) : c.calibrate.2.name = c.name := by
  cases h : c.cache with
  | forgets => rw [calibrate_of_forgets h]
  | keeps content =>
    cases content with
    | some content => rw [calibrate_of_primed h]
    | none => rw [calibrate_of_empty h]

/-- A calibrator is used up at once: to use it again changes nothing any more, whichever kind of
cache it has. -/
theorem calibrate_again (c : Calibrator) : c.calibrate.2.calibrate.2 = c.calibrate.2 := by
  cases h : c.cache with
  | forgets =>
    have hagain : calibrate { c with batches := [] } = _ := calibrate_of_forgets h
    rw [calibrate_of_forgets h, hagain]
  | keeps content =>
    cases content with
    | some content => rw [calibrate_of_primed h, calibrate_of_primed h]
    | none => rw [calibrate_of_empty h, calibrate_of_primed rfl]

/-- A calibrator that keeps its cache finds the same ever after. -/
theorem calibrate_of_keeps {initial : Option Bytes} (h : c.cache = .keeps initial) :
    c.calibrate.2.calibrate = c.calibrate := by
  cases initial with
  | some content => rw [calibrate_of_primed h, calibrate_of_primed h]
  | none => rw [calibrate_of_empty h, calibrate_of_primed rfl, Utf8.decodeLossy_encode]

end Calibrator

/-! ## The name of a calibrator -/

section Name

variable {w w' : Work} {t t' : BuildState}

/-- One step of the work keeps the name of the calibrator. The cases are the steps, of which only
the batches and the cache that is written touch it. -/
theorem step_calibrator_name (h : w.step t = some (w', t')) :
    t'.calibrator.map Calibrator.name = t.calibrator.map Calibrator.name := by
  cases w with
  | done | fail | crash => cases h
  | drainBatches next =>
    cases hfound : t.calibrator with
    | some c =>
      rw [Work.step, hfound] at h
      cases h
      rfl
    | none =>
      rw [Work.step, hfound] at h
      cases h
      rw [hfound]
  | writeCache content next =>
    cases h
    show (t.calibrator.map (·.writeCache content)).map Calibrator.name = _
    rw [Option.map_map]
    refine Option.map_congr fun c _ => ?_
    show (c.writeCache content).name = c.name
    unfold Calibrator.writeCache
    split <;> rfl
  | _ =>
    cases h
    rfl

/-- All of the work keeps the name of the calibrator; `step_calibrator_name` over the steps of the
run. -/
theorem run_calibrator_name (w : Work) (t : BuildState) :
    (w.run t).1.calibrator.map Calibrator.name = t.calibrator.map Calibrator.name := by
  obtain ⟨v, hsteps, -⟩ := w.exists_steps_run t
  exact Work.holds_of_steps
    (P := fun x => x.2.calibrator.map Calibrator.name = t.calibrator.map Calibrator.name) hsteps rfl
    fun hname hstep => (step_calibrator_name hstep).trans hname

variable {s : Settings}

/-- A backend is told the same whatever has become of the calibrator. -/
theorem ofSettings_eq_of_name {c? : Option Calibrator}
    (h : c?.map Calibrator.name = s.calibrator.map Calibrator.name) :
    EngineOptions.ofSettings { s with calibrator := c? } = .ofSettings s := by
  have hused : ({ s with calibrator := c? } : Settings).usedCalibrator.map Calibrator.name =
      s.usedCalibrator.map Calibrator.name := by
    show (if s.int8Enabled then c? else none).map Calibrator.name = _
    unfold Settings.usedCalibrator
    split
    · exact h
    · rfl
  unfold EngineOptions.ofSettings
  rw [hused]

/-- A build keeps the name of the calibrator, on every exit: before the backend is asked the
calibrator is not touched, and afterwards it is what the work has left. -/
theorem build_calibrator_name (backend : Backend) (g : ValidGraph) (r : Region) (s : Settings)
    (budget : BuildBudget) (signal : Bool) :
    (build backend g r s budget signal).calibrator.map Calibrator.name =
      s.calibrator.map Calibrator.name := by
  rcases build_eq_or backend g r s budget signal with ⟨e, hstopped⟩ | ⟨n, _, hbuild⟩
  · rw [hstopped]
  · rw [hbuild]
    unfold buildNetwork
    dsimp only
    split
    · next hint8 =>
      rw [run_calibrator_name]
      show s.usedCalibrator.map Calibrator.name = _
      rw [Settings.usedCalibrator, if_pos hint8]
    · rfl

end Name

/-! ## The reference backend -/

/-- An end without an engine. -/
def Ending.WithoutEngine (ending : Ending) : Prop := ∀ bytes, ending ≠ .engine bytes

/-- The work ends with what the calibrator finds put into `image`, and the calibrator used; or it
ends without an engine, and the calibrator is left alone. Which of the two does not depend on the
calibrator. -/
def Work.Calibrates (image : String → Bytes) (w : Work) : Prop :=
  ∀ context, ∃ context',
    (∃ ending : Ending, ending.WithoutEngine ∧ ∀ c journal,
      w.run ⟨context, some c, journal⟩ = (⟨context', some c, journal⟩, ending)) ∨
    ∀ c journal, w.run ⟨context, some c, journal⟩ =
      (⟨context', some c.calibrate.2, journal⟩, .engine (image c.calibrate.1))

/-- Such an end is the same error whatever became of the arena and the clock. -/
theorem Ending.WithoutEngine.exists_error {ending : Ending} (h : ending.WithoutEngine)
    (backend : Backend) (n : Network) :
    ∃ e, ∀ before after clock, outcomeOf backend n before after clock ending = .error e := by
  cases ending with
  | engine bytes => exact absurd rfl (h bytes)
  | failure cause => cases cause <;> exact ⟨_, fun _ _ _ => rfl⟩
  | crashed => exact ⟨_, fun _ _ _ => rfl⟩

theorem calibrates_fail (image : String → Bytes) (e : BackendError) :
    (Work.fail e).Calibrates image :=
  fun context => ⟨context, .inl ⟨.failure e, fun _ h => (by cases h), fun _ _ => rfl⟩⟩

theorem calibrates_crash (image : String → Bytes) : Work.crash.Calibrates image :=
  fun context => ⟨context, .inl ⟨.crashed, fun _ h => (by cases h), fun _ _ => rfl⟩⟩

/-- What the layers put in front of work leaves the calibrator alone: if what comes next calibrates,
so does the work that passes a checkpoint, reserves memory or lets time pass before. -/
theorem calibrates_keptByLayers (image : String → Bytes) :
    Work.KeptByLayers (Work.Calibrates image) where
  fail := calibrates_fail image
  checkpoint h context := h context.checkpoint.2 context.checkpoint.1
  reserve {size label next} h context := by
    -- what the arena answers does not depend on the calibrator either
    have hresumed : ((context.reserve size label true).2.resume
        (ReferenceBackend.onceGranted next)).Calibrates image := by
      refine Reply.resume_of_forall (P := Work.Calibrates image) ?_ (calibrates_crash image) _
      rintro (_ | e)
      · exact h
      · exact calibrates_fail image _
    obtain ⟨context', hends⟩ := hresumed (context.reserve size label true).1
    refine ⟨context', ?_⟩
    simpa only [Work.run_reserve] using hends
  pause {ms _} h context := h (context.pause ms)

/-- The part of the reference backend's work that looks at the calibrator. The cases are what the
cache answers; either way the text is what `Calibrator.calibrate` finds. -/
theorem calibrates_calibrationWork {o : EngineOptions}
    (h : (o.int8Enabled && o.calibratorName.isSome) = true) (image : String → Bytes)
    (image' : Option String → Bytes) (himage : ∀ text, image' (some text) = image text) :
    (ReferenceBackend.calibrationWork o fun calibration =>
      .done (image' calibration)).Calibrates image := by
  intro context
  refine ⟨context, .inr fun c journal => ?_⟩
  unfold ReferenceBackend.calibrationWork
  rw [if_pos h, Work.run]
  show Work.run _ _ = _
  unfold Calibrator.calibrate
  rw [Option.bind_some]
  -- what is in the cache is embedded, and the calibrator is left as it is
  cases c.readCache with
  | some content =>
    show (_, Ending.engine (image' (some (Utf8.decodeLossy content)))) = _
    rw [himage]
  -- all batches are taken, and what they come to is embedded and put into the cache
  | none =>
    show (_, Ending.engine (image' (some (calibrationText c.batches)))) = _
    rw [himage]
    rfl

/-- All of the reference backend's work calibrates: what stands around the calibration is kept by
layers, and what it ends with is `engineBytes` with the text that was found. -/
theorem calibrates_reference (b : ReferenceBackend) (n : Network) {s : Settings}
    (hint8 : s.int8Enabled = true) {c : Calibrator} (hc : s.calibrator = some c) :
    (b.work n (.ofSettings s)).Calibrates fun text => engineBytes n (.ofSettings s) (some text) := by
  have hcalibrates : (EngineOptions.int8Enabled (.ofSettings s) &&
      (EngineOptions.ofSettings s).calibratorName.isSome) = true := by
    show (s.int8Enabled && (s.usedCalibrator.map Calibrator.name).isSome) = true
    rw [Settings.usedCalibrator, hint8, hc]
    rfl
  have hlast := calibrates_calibrationWork hcalibrates
    (fun text => engineBytes n (.ofSettings s) (some text)) (engineBytes n (.ofSettings s))
    fun _ => rfl
  have hkept := calibrates_keptByLayers fun text => engineBytes n (.ofSettings s) (some text)
  exact hkept.layersWork b (hkept.afterCheckpoint hlast) n.layers

/-! ## Builds -/

/-- The artifact is an engine that embeds `text`: `text` is what is read out of its bytes as their
calibration. All else in them is the network of the region and the options of the settings. -/
def EmbedsCalibration (g : ValidGraph) (s : Settings) (text : String) (r : Region) (a : Artifact) :
    Prop :=
  ∃ n bytes report, lower g r s = .ok n ∧ a = .engine bytes report ∧
    calibrationIn? bytes = some text ∧ bytes = engineBytes n (.ofSettings s) (some text)

/-- An engine made with a text embeds it, as `calibrationIn?_engineBytes` reads the text back. -/
theorem embedsCalibration_engineBytes {g : ValidGraph} {s : Settings} {r : Region} {n : Network}
    (hn : lower g r s = .ok n) (text : String) (report : BuildReport) :
    EmbedsCalibration g s text r (.engine (engineBytes n (.ofSettings s) (some text)) report) :=
  ⟨n, _, report, hn, rfl, calibrationIn?_engineBytes n _ _, rfl⟩

/-- An engine embeds one text at most, since its bytes are read in one way. -/
theorem embedsCalibration_unique {g : ValidGraph} {s : Settings} {text text' : String} {r : Region}
    {a : Artifact} (h : EmbedsCalibration g s text r a) (h' : EmbedsCalibration g s text' r a) :
    text = text' := by
  obtain ⟨_, bytes, _, _, rfl, htext, _⟩ := h
  obtain ⟨_, _, _, _, heq, htext', _⟩ := h'
  obtain ⟨rfl, rfl⟩ := Artifact.engine.inj heq
  exact Option.some.inj (htext.symm.trans htext')

section Build

variable (b : ReferenceBackend) (g : ValidGraph) (r : Region) (n : Network) {s : Settings}
variable (hint8 : s.int8Enabled = true) {c₀ : Calibrator} (hc : s.calibrator = some c₀)
variable (budget : BuildBudget) (signal : Bool)

include hint8 hc

/-- The build of a network in an arena, for all calibrators of one name at a time: each of them
fails with one error, or each makes an engine with what it finds. The options name the calibrator
only, so the work is the same for all of them. -/
theorem buildNetwork_calibrated_cases (arena : Arena) :
    (∃ e, ∀ c : Calibrator, c.name = c₀.name →
        (buildNetwork b.toBackend n { s with calibrator := some c } budget arena signal).outcome =
          .error e) ∨
      ∃ report : String → BuildReport, ∀ c : Calibrator, c.name = c₀.name →
        (buildNetwork b.toBackend n { s with calibrator := some c } budget arena signal).outcome =
            .ok (.engine (engineBytes n (.ofSettings s) (some c.calibrate.1)) (report c.calibrate.1)) ∧
          (buildNetwork b.toBackend n { s with calibrator := some c } budget arena
            signal).calibrator = some c.calibrate.2 := by
  obtain ⟨context, hends⟩ :=
    calibrates_reference b n hint8 hc (.new n.region arena budget signal)
  -- neither the options nor the work depend on which calibrator it is
  have hoptions : ∀ c : Calibrator, c.name = c₀.name →
      EngineOptions.ofSettings { s with calibrator := some c } = .ofSettings s := by
    intro c hname
    refine ofSettings_eq_of_name ?_
    rw [hc]
    exact congrArg some hname
  have hused : ∀ c : Calibrator,
      ({ s with calibrator := some c } : Settings).usedCalibrator = some c := fun _ => if_pos hint8
  rcases hends with ⟨ending, hwithout, hrun⟩ | hrun
  · obtain ⟨e, he⟩ := hwithout.exists_error b.toBackend n
    refine Or.inl ⟨e, fun c hname => ?_⟩
    have hwork : ((b.toBackend.work n (.ofSettings s)).run
        ⟨.new n.region arena budget signal, some c, []⟩) = _ := hrun c []
    unfold buildNetwork
    dsimp only
    rw [hoptions c hname, hused c, hwork]
    exact he _ _ _
  · refine Or.inr ⟨fun text => {
      region := n.region
      backend := "reference"
      network := n.name
      duration := .ofMillis context.clock
      engineBytes := (engineBytes n (.ofSettings s) (some text)).length
      peakDeviceBytes := context.close.stats.peakLiveBytes
      reservations := context.close.stats.reservations - arena.stats.reservations
      inputs := n.inputs }, fun c hname => ?_⟩
    have hwork : ((b.toBackend.work n (.ofSettings s)).run
        ⟨.new n.region arena budget signal, some c, []⟩) = _ := hrun c []
    have hint8' : ({ s with calibrator := some c } : Settings).int8Enabled = true := hint8
    unfold buildNetwork
    dsimp only
    rw [hoptions c hname, hused c, hwork, if_pos hint8']
    exact ⟨rfl, rfl⟩

/-- The build of a region with whatever calibrator of one name: it fails, and leaves the calibrator
alone; or it makes an engine with what the calibrator finds. -/
theorem build_calibrated_cases :
    (∃ e, ∀ c : Calibrator, c.name = c₀.name →
        (build b.toBackend g r { s with calibrator := some c } budget signal).outcome = .error e) ∨
      ∃ artifact : String → Artifact, (∀ text, EmbedsCalibration g s text r (artifact text)) ∧
        ∀ c : Calibrator, c.name = c₀.name →
          (build b.toBackend g r { s with calibrator := some c } budget signal).outcome =
              .ok (artifact c.calibrate.1) ∧
            (build b.toBackend g r { s with calibrator := some c } budget signal).calibrator =
              some c.calibrate.2 := by
  have hlower : ∀ c : Calibrator,
      lower g r { s with calibrator := some c } = lower g r s := fun _ => rfl
  cases hn : lower g r s with
  | error e =>
    refine Or.inl ⟨.failed (.lower e), fun c _ => ?_⟩
    rw [build, buildIn, hlower c, hn]
  | ok n =>
    cases hcheck : budget.check signal 0 with
    | some cause =>
      refine Or.inl ⟨.cancelled r.index cause, fun c _ => ?_⟩
      rw [build_of_lower ((hlower c).trans hn), hcheck]
    | none =>
      have hbuild : ∀ c : Calibrator,
          build b.toBackend g r { s with calibrator := some c } budget signal =
            buildNetwork b.toBackend n { s with calibrator := some c } budget s.ownArena signal := by
        intro c
        rw [build_of_lower ((hlower c).trans hn), hcheck]
        rfl
      rcases buildNetwork_calibrated_cases b n hint8 hc budget signal s.ownArena with
        ⟨e, he⟩ | ⟨report, hreport⟩
      · refine Or.inl ⟨e, fun c hname => ?_⟩
        rw [hbuild]
        exact he c hname
      · refine Or.inr ⟨fun text => .engine (engineBytes n (.ofSettings s) (some text)) (report text),
          fun text => embedsCalibration_engineBytes hn text (report text), ?_⟩
        intro c hname
        rw [hbuild]
        exact hreport c hname

end Build

end HybridCompile
