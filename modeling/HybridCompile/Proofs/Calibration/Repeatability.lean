import HybridCompile.Proofs.Calibration.Agreement

/-!
# HybridCompile — calibrated builds that can be repeated

A calibrator that keeps its cache finds the same for every build, whether it is new, used, or was
filled long ago. So a compilation comes out the same whatever the order of its builds, and again
when it is repeated.

* `IsCalibration` — what the engines have to embed.
* `compile_eq_ok_iff` — how a compilation comes out, without an order.
* `calibrated_compile_repeatable` — orders, repetitions, and what is left of the calibrator.
-/

namespace HybridCompile

/-- The calibration that a cache and some batches stand for: the text of the cache, if anything is in
it; else the number of batches and the largest size. -/
def IsCalibration (initial : Option Bytes) (batches : List (List Number.Sample)) (text : String) :
    Prop :=
  match initial with
  | some content => text = Utf8.decodeLossy content
  | none => ∃ m, IsLargestSize batches m ∧ text = s!"batches={batches.length};abs_max={m.text}"

/-- What a calibrator that keeps its cache finds is the calibration that its cache and its batches
stand for. -/
theorem isCalibration_calibrate {c : Calibrator} {initial : Option Bytes}
    (h : c.cache = .keeps initial) : IsCalibration initial c.batches c.calibrate.1 := by
  cases initial with
  | some content =>
    rw [Calibrator.calibrate_of_primed h]
    rfl
  | none =>
    rw [Calibrator.calibrate_of_empty h]
    exact ⟨largestSize c.batches, largestSize_isLargest c.batches, rfl⟩

/-- What is left of a calibrator that keeps its cache: batches are gone if they were taken, and the
cache holds the text that was found. -/
theorem calibrate_snd_of_keeps {c : Calibrator} {initial : Option Bytes}
    (h : c.cache = .keeps initial) :
    c.calibrate.2 =
      { c with
        batches := if initial.isSome then c.batches else []
        cache := .keeps (some (initial.getD (Utf8.encode c.calibrate.1))) } := by
  cases initial with
  | some content =>
    rw [Calibrator.calibrate_of_primed h]
    obtain ⟨name, batchSize, batches, cache⟩ := c
    cases h
    rfl
  | none =>
    rw [Calibrator.calibrate_of_empty h]
    rfl

namespace Calibrator

variable {c : Calibrator} {initial : Option Bytes}

/-- Each build finds such a calibrator under its name and with what it found at first, wherever the
build stands in the order. -/
theorem before_of_keeps (h : c.cache = .keeps initial) (order : List Region) (r : Region) :
    (c.before order r).name = c.name ∧ (c.before order r).calibrate = c.calibrate := by
  unfold before
  split
  · exact ⟨rfl, rfl⟩
  · exact ⟨c.calibrate_name, calibrate_of_keeps h⟩

/-- After some builds such a calibrator keeps its cache still, has its name, and finds the same. -/
theorem after_of_keeps (h : c.cache = .keeps initial) (regions : List Region) :
    (∃ initial', (c.after regions).cache = .keeps initial') ∧ (c.after regions).name = c.name ∧
      (c.after regions).calibrate = c.calibrate := by
  cases regions with
  | nil => exact ⟨⟨initial, h⟩, rfl, rfl⟩
  | cons r rest =>
    refine ⟨⟨some (initial.getD (Utf8.encode c.calibrate.1)), ?_⟩, c.calibrate_name,
      calibrate_of_keeps h⟩
    show c.calibrate.2.cache = _
    rw [calibrate_snd_of_keeps h]

/-- The first build does to the calibrator all that is done to it, so that any number of builds from
one on leave it in one state. -/
theorem after_take (c : Calibrator) (regions : List Region) {k : Nat} (hk : 0 < k) :
    c.after (regions.take k) = c.after regions := by
  obtain ⟨k, rfl⟩ := Nat.exists_eq_succ_of_ne_zero hk.ne'
  cases regions <;> rfl

/-- Once there was a build, further builds leave the calibrator as it is. -/
theorem after_again (c : Calibrator) {regions regions' : List Region} (h : regions'.Perm regions) :
    (c.after regions).after regions' = c.after regions := by
  cases regions with
  | nil =>
    rw [h.eq_nil]
    rfl
  | cons r rest =>
    cases regions' with
    | nil => exact absurd h.symm.eq_nil (List.cons_ne_nil r rest)
    | cons r' rest' => exact c.calibrate_again

end Calibrator

section

variable {g : ValidGraph} {s : Settings} {session : Session} {plan : Plan} {signal : Bool}
variable {b : ReferenceBackend} {c c' : Calibrator} {initial : Option Bytes}
variable {order : List Region → List Region} {executable : Executable}

/-- Calibrators of one name that find the same make no difference to a build. -/
theorem buildWith_congr (hbackend : session.backend = b.toBackend) (hint8 : s.int8Enabled = true)
    (hc : s.calibrator = some c) (hname : c'.name = c.name)
    (hsame : c'.calibrate.1 = c.calibrate.1) (r : Region) :
    session.buildWith g s signal c' r = session.buildWith g s signal c r := by
  rcases buildWith_cases (g := g) hbackend hint8 hc signal r with ⟨e, herror⟩ | ⟨artifact, -, hok⟩
  · rw [herror c' hname, herror c rfl]
  · rw [hok c' hname, hok c rfl, hsame]

theorem rightUnique_gets (f : Region → Except BuildError Artifact) :
    Relator.RightUnique (Gets fun r a => f r = .ok a) := by
  intro r a a' h h'
  unfold Gets at h h'
  by_cases haccelerator : r.isAccelerator = true
  · rw [if_pos haccelerator] at h h'
    exact Except.ok.inj (h.symm.trans h')
  · rw [if_neg haccelerator] at h h'
    exact h.trans h'.symm

/-- What builds have to give for a compilation to end with an executable. No order is spoken of. -/
def MadeOf (session : Session) (g : ValidGraph) (s : Settings) (signal : Bool) (c : Calibrator)
    (plan : Plan) (artifacts : List Artifact) : Prop :=
  List.Forall₂ (Gets fun r a => session.buildWith g s signal c r = .ok a) plan.regions artifacts

theorem not_fails_of_madeOf {artifacts : List Artifact}
    (h : MadeOf session g s signal c plan artifacts) :
    ¬∃ r ∈ plan.acceleratorRegions, ∃ e, session.buildWith g s signal c r = .error e := by
  rintro ⟨r, hr, e, herror⟩
  obtain ⟨hregion, haccelerator⟩ := List.mem_filter.mp hr
  obtain ⟨a, hget, -⟩ := exists_both h h hregion
  rw [Gets, if_pos haccelerator, herror] at hget
  cases hget

/-- With a calibrator that keeps its cache, what a build finds does not depend on the builds before
it. -/
theorem compile_kept_cases (h : g.Sound) (hplan : session.plan g s = .ok plan)
    (hsemaphore : session.config.hasSemaphore = true) (hbackend : session.backend = b.toBackend)
    (hint8 : s.int8Enabled = true) (hc : s.calibrator = some c) (hkeeps : c.cache = .keeps initial)
    (horder : ∀ rs, (order rs).Perm rs) (signal : Bool) :
    (∃ artifacts, MadeOf session g s signal c plan artifacts ∧
        (session.compileInOrder order g s signal).outcome = .ok (.ofPlan g plan artifacts)) ∨
      (∃ e, (session.compileInOrder order g s signal).outcome = .error e) ∧
        ∃ r ∈ plan.acceleratorRegions, ∃ e, session.buildWith g s signal c r = .error e := by
  have hbuilds : ∀ r, session.buildWith g s signal
      (c.before (order plan.acceleratorRegions) r) r = session.buildWith g s signal c r := by
    intro r
    obtain ⟨hname, hsame⟩ := Calibrator.before_of_keeps hkeeps (order plan.acceleratorRegions) r
    exact buildWith_congr hbackend hint8 hc hname (congrArg Prod.fst hsame) r
  have hcases := compile_calibrated_cases h hplan hsemaphore hbackend hint8 hc horder signal
  simp only [hbuilds] at hcases
  exact hcases

/-- A compilation with a calibrator that keeps its cache ends with an executable exactly if there is
a semaphore and a plan, and each build alone makes its artifact. The order of the builds is on the
left side only. -/
theorem compile_eq_ok_iff (h : g.Sound) (hbackend : session.backend = b.toBackend)
    (hint8 : s.int8Enabled = true) (hc : s.calibrator = some c) (hkeeps : c.cache = .keeps initial)
    (horder : ∀ rs, (order rs).Perm rs) :
    (session.compileInOrder order g s signal).outcome = .ok executable ↔
      session.config.hasSemaphore = true ∧ ∃ plan artifacts, session.plan g s = .ok plan ∧
        executable = .ofPlan g plan artifacts ∧ MadeOf session g s signal c plan artifacts := by
  constructor
  · intro hok
    obtain ⟨⟨plan, hplan⟩, hsemaphore⟩ := exists_plan_of_compile hok
    rcases compile_kept_cases h hplan hsemaphore hbackend hint8 hc hkeeps horder signal with
      ⟨artifacts, hmade, hcompiled⟩ | ⟨⟨e, herror⟩, -⟩
    · rw [hcompiled] at hok
      exact ⟨hsemaphore, plan, artifacts, hplan, (CompileOutcome.ok.inj hok).symm, hmade⟩
    · rw [herror] at hok
      cases hok
  · rintro ⟨hsemaphore, plan, artifacts, hplan, rfl, hmade⟩
    rcases compile_kept_cases h hplan hsemaphore hbackend hint8 hc hkeeps horder signal with
      ⟨artifacts', hmade', hcompiled⟩ | ⟨-, hfails⟩
    · rw [hcompiled, List.right_unique_forall₂' (rightUnique_gets _) hmade hmade']
    · exact absurd hfails (not_fails_of_madeOf hmade)

/-- What is left of the calibrator when no build has failed. -/
theorem calibrator_buildEach (hbackend : session.backend = b.toBackend)
    (hint8 : s.int8Enabled = true) (hc : s.calibrator = some c) {regions : List Region}
    (hnodup : regions.Nodup)
    (hnone : ¬∃ r ∈ regions, ∃ e, session.buildWith g s signal c r = .error e) :
    (session.buildEach g s signal regions).calibrator = some (c.after regions) := by
  have htally : Tally _ _ _ regions (session.buildEach g s signal regions) :=
    tally_calibrated hbackend hint8 hc hnodup
  cases herror : (session.buildEach g s signal regions).error? with
  | some e => exact absurd (htally.bad e herror) hnone
  | none => exact (htally.keeps herror).2

/-- What is left of the calibrator when a compilation has made its executable. -/
theorem calibrator_compile (h : g.Sound) (hbackend : session.backend = b.toBackend)
    (hint8 : s.int8Enabled = true) (hc : s.calibrator = some c) (hplan : session.plan g s = .ok plan)
    (hsemaphore : session.config.hasSemaphore = true) (horder : ∀ rs, (order rs).Perm rs)
    {artifacts : List Artifact} (hmade : MadeOf session g s signal c plan artifacts) :
    (session.compileInOrder order g s signal).progress.calibrator =
      some (c.after (order plan.acceleratorRegions)) := by
  have hnodup := nodup_order h.operators_ne_nil hplan horder
  rw [compileInOrder_of_plan hplan hsemaphore]
  refine calibrator_buildEach hbackend hint8 hc hnodup ?_
  rintro ⟨r, hr, hfails⟩
  exact not_fails_of_madeOf hmade ⟨r, (horder _).mem_iff.mp hr, hfails⟩

/-- The calibrator in another state in which it finds the same makes the same of a plan. -/
theorem madeOf_of_same (hbackend : session.backend = b.toBackend) (hint8 : s.int8Enabled = true)
    (hc : s.calibrator = some c) (hname : c'.name = c.name)
    (hsame : c'.calibrate.1 = c.calibrate.1) {artifacts : List Artifact}
    (h : MadeOf session g s signal c plan artifacts) :
    MadeOf session g { s with calibrator := some c' } signal c' plan artifacts := by
  refine h.imp fun r a hget => hget.imp fun a ha => ?_
  have hbuild : session.buildWith g s signal c' r = session.buildWith g s signal c r :=
    buildWith_congr hbackend hint8 hc hname hsame r
  exact hbuild.trans ha

end

/-- With a calibrator that keeps its cache, a compilation that succeeds gives the same executable in
every order of the builds, and again with the calibrator that it has left behind. Each engine embeds
what was in the cache, or what all batches come to; that is what the cache then holds, and the first
build alone makes it so. -/
theorem calibrated_compile_repeatable {raw : Graph} {g : ValidGraph} {s : Settings} {c : Calibrator}
    {initial : Option Bytes} {order : List Region → List Region} {executable : Executable}
    (h : raw.validate = .ok g) (hint8 : s.int8Enabled = true) (hc : s.calibrator = some c)
    (hkeeps : c.cache = .keeps initial) (horder : ∀ rs, (order rs).Perm rs) (oracle : Oracle)
    (b : ReferenceBackend) (config : Config) (signal : Bool)
    (hok : ((Session.ofReference oracle b config).compileInOrder order g s signal).outcome =
      .ok executable) :
    let session := Session.ofReference oracle b config
    let left := (session.compileInOrder order g s signal).progress.calibrator
    (∀ order' : List Region → List Region, (∀ rs, (order' rs).Perm rs) →
        (session.compileInOrder order' g s signal).outcome = .ok executable ∧
        (session.compileInOrder order' g { s with calibrator := left } signal).outcome =
          .ok executable ∧
        (session.compileInOrder order' g { s with calibrator := left } signal).progress.calibrator =
          left) ∧
      ∃ plan artifacts text, session.plan g s = .ok plan ∧
        executable = .ofPlan g plan artifacts ∧ IsCalibration initial c.batches text ∧
        List.Forall₂ (Gets (EmbedsCalibration g s text)) plan.regions artifacts ∧
        (plan.acceleratorRegions ≠ [] → left = some { c with
          batches := if initial.isSome then c.batches else []
          cache := .keeps (some (initial.getD (Utf8.encode text))) }) ∧
        ∀ k, 0 < k →
          (session.buildEach g s signal ((order plan.acceleratorRegions).take k)).calibrator =
            left := by
  intro session left
  have hsound := Graph.sound_of_validate h
  have hbackend : session.backend = b.toBackend := rfl
  obtain ⟨hsemaphore, plan, artifacts, hplan, heq, hmade⟩ :=
    (compile_eq_ok_iff hsound hbackend hint8 hc hkeeps horder).mp hok
  have hleft : left = some (c.after (order plan.acceleratorRegions)) :=
    calibrator_compile hsound hbackend hint8 hc hplan hsemaphore horder hmade
  rw [hleft]
  refine ⟨fun order' horder' => ?_, plan, artifacts, c.calibrate.1, hplan, heq,
    isCalibration_calibrate hkeeps, ?_, fun hsome => ?_, fun k hk => ?_⟩
  · -- what is left keeps its cache too, and finds the same
    obtain ⟨⟨initial', hkeeps'⟩, hname, hsame⟩ :=
      Calibrator.after_of_keeps hkeeps (order plan.acceleratorRegions)
    have hint8' : ({ s with calibrator := some (c.after (order plan.acceleratorRegions)) } :
      Settings).int8Enabled = true := hint8
    have hplan' : session.plan g
        { s with calibrator := some (c.after (order plan.acceleratorRegions)) } = .ok plan := hplan
    have hmade' := madeOf_of_same hbackend hint8 hc hname (congrArg Prod.fst hsame) hmade
    refine ⟨?_, ?_, ?_⟩
    · exact (compile_eq_ok_iff hsound hbackend hint8 hc hkeeps horder').mpr
        ⟨hsemaphore, plan, artifacts, hplan, heq, hmade⟩
    · exact (compile_eq_ok_iff hsound hbackend hint8' rfl hkeeps' horder').mpr
        ⟨hsemaphore, plan, artifacts, hplan', heq, hmade'⟩
    · rw [calibrator_compile hsound hbackend hint8' rfl hplan' hsemaphore horder' hmade']
      exact congrArg some (c.after_again ((horder' _).trans (horder _).symm))
  · exact hmade.imp fun r a hget => hget.imp fun a => embeds_of_buildWith rfl hint8 hc rfl
  · have hne : order plan.acceleratorRegions ≠ [] := fun hnil =>
      hsome (hnil ▸ horder plan.acceleratorRegions).symm.eq_nil
    obtain ⟨first, rest, hcons⟩ := List.exists_cons_of_ne_nil hne
    rw [hcons]
    exact congrArg some (calibrate_snd_of_keeps hkeeps)
  · -- some of the builds, none of which has failed
    have hnodup := nodup_order hsound.operators_ne_nil hplan horder
    rw [calibrator_buildEach hbackend hint8 hc (hnodup.sublist (List.take_sublist _ _)),
      c.after_take _ hk]
    rintro ⟨r, hr, hfails⟩
    exact not_fails_of_madeOf hmade ⟨r, (horder _).mem_iff.mp (List.mem_of_mem_take hr), hfails⟩

/-! ## An instance

The calibrator has one batch and an empty cache. -/

/-- The settings of `forgetful`, with a cache that is empty and is kept. -/
def remembering : Settings :=
  { forgetful with
    calibrator := some ⟨"samples", 1, [[.signed true .infinite]], .keeps none⟩ }

/-- Built backwards and forwards, the graph with two regions comes to one executable, and the cache
holds what both engines embed. -/
theorem calibrated_compile_repeatable_skipping :
    skipping.validate = .ok skippingValid ∧ remembering.int8Enabled = true ∧
      remembering.calibrator = some ⟨"samples", 1, [[.signed true .infinite]], .keeps none⟩ ∧
      (∀ rs : List Region, rs.reverse.Perm rs) ∧
      ∃ executable, (calibratingSession.compileInOrder List.reverse skippingValid remembering
          false).outcome = .ok executable ∧
        (calibratingSession.compile skippingValid remembering false).outcome = .ok executable ∧
        ∃ text, IsCalibration none [[.signed true .infinite]] text ∧
          (calibratingSession.compileInOrder List.reverse skippingValid remembering
            false).progress.calibrator =
              some ⟨"samples", 1, [], .keeps (some (Utf8.encode text))⟩ := by
  have hvalid : skipping.validate = .ok skippingValid := by decide
  have hplan : calibratingSession.plan skippingValid remembering = .ok skippingPlan := by
    decide +kernel
  obtain ⟨executable, hok⟩ := CompileOutcome.exists_eq_ok_of_isOk
    (show (calibratingSession.compileInOrder List.reverse skippingValid remembering
      false).outcome.isOk = true by decide +kernel)
  obtain ⟨hagain, plan, artifacts, text, hplan', -, htext, -, hleft, -⟩ :=
    calibrated_compile_repeatable (s := remembering) hvalid rfl rfl rfl List.reverse_perm
      SupportTable.acceptAll.toOracle .default .default false hok
  obtain rfl : plan = skippingPlan := Except.ok.inj (hplan'.symm.trans hplan)
  exact ⟨hvalid, rfl, rfl, List.reverse_perm, executable, hok,
    (hagain id fun rs => .refl rs).1, text, htext, hleft (by decide +kernel)⟩

end HybridCompile
