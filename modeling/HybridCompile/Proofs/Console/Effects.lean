import HybridCompile.Proofs.Compile.Segments
import HybridCompile.Proofs.Console.Again

/-!
# HybridCompile — what `compile` changes

A compilation that fails leaves all files as they are. One that succeeds leaves its results: the
engines, the plan, and the calibration cache if there is one. The next compilation of the same finds
the same engines, and changes none of them.

* `IsOutput`, `Apart` — where the results are, and that nothing else is there.
* `LeavesResults` — what a compilation that succeeds does to the files.
* `rerun_keeps` — what the next one does to them.
* `compile_changes_exactly_results` — all of it.
-/

namespace HybridCompile.Console

open FileTree

variable {tree after : FileTree} {o : CompileOptions} {e : Executable}
variable {calibrator : Option Calibrator}

/-! ## Places -/

/-- The place of the plan, or of the engine of a segment. -/
def IsOutput (o : CompileOptions) (e : Executable) (l : Location) : Prop :=
  l = target (planPath o) ∨
    ∃ segment ∈ e.segments, segment.target = .accelerator ∧ l = target (enginePath o segment.region)

/-- The inputs, the calibration cache and the results are different files. -/
structure Apart (o : CompileOptions) (e : Executable) : Prop where
  cache : ∀ path, o.calibrationCache = some path → ¬IsOutput o e (target path)
  inputs : ∀ input ∈ o.inputPaths, ¬IsOutput o e (target input) ∧
    ∀ path, o.calibrationCache = some path → target input ≠ target path

theorem wired_of_prepared (h : prepared tree o = .ok (e, calibrator)) : e.Wired := by
  obtain ⟨inputs, -, hcompiled, -⟩ := prepared_eq_ok_iff.mp h
  obtain ⟨-, -, -, hwired⟩ := segments_of_compile hcompiled
  exact hwired

/-- A result is in the output directory, or is the calibrator's cache. -/
theorem isOutput_or_of_mem (hwired : e.Wired) {w : String × Bytes}
    (hw : w ∈ resultFiles o e calibrator) :
    IsOutput o e (target w.1) ∨
      o.calibrationCache = some w.1 ∧ calibrator.bind Calibrator.readCache = some w.2 := by
  rcases mem_resultFiles_iff.mp hw with ⟨segment, hengine, hpath⟩ | rfl | hcache
  · obtain ⟨hmem, htarget, -⟩ := hwired.mem_engines_iff.mp hengine
    exact Or.inl (Or.inr ⟨segment, hmem, htarget, congrArg target hpath⟩)
  · exact Or.inl (Or.inl rfl)
  · exact Or.inr hcache

/-- There are no two results for one place. Two engines are of one region, and so one segment's; the
cache is `Apart` from all others. -/
theorem content_unique (hwired : e.Wired) (hapart : Apart o e) {w w' : String × Bytes}
    (hw : w ∈ resultFiles o e calibrator) (hw' : w' ∈ resultFiles o e calibrator)
    (heq : target w.1 = target w'.1) : w.2 = w'.2 := by
  rcases isOutput_or_of_mem hwired hw with houtput | ⟨hpath, hcontent⟩
  · -- neither is the cache
    have hengine_or_plan : ∀ v ∈ resultFiles o e calibrator, target v.1 = target w.1 →
        (∃ segment, (segment, v.2) ∈ e.engines ∧ v.1 = enginePath o segment.region) ∨
          v = (planPath o, Utf8.encode e.toJson.pretty) := by
      intro v hv htarget
      rcases mem_resultFiles_iff.mp hv with hengine | hplan | ⟨hpath, -⟩
      · exact Or.inl hengine
      · exact Or.inr hplan
      · exact absurd (htarget ▸ houtput) (hapart.cache _ hpath)
    rcases hengine_or_plan w hw rfl with ⟨segment, hengine, hpath⟩ | hplan <;>
      rcases hengine_or_plan w' hw' heq.symm with ⟨segment', hengine', hpath'⟩ | hplan'
    · rw [hpath, hpath'] at heq
      obtain ⟨hmem, -, report, hsome⟩ := hwired.mem_engines_iff.mp hengine
      obtain ⟨hmem', -, report', hsome'⟩ := hwired.mem_engines_iff.mp hengine'
      obtain rfl := hwired.segment_eq_of_region hmem hmem' (target_enginePath_inj heq)
      exact (Prod.mk.inj (Option.some.inj (hsome.symm.trans hsome'))).1
    · rw [hpath, hplan'] at heq
      exact absurd heq (target_enginePath_ne_plan _)
    · rw [hplan, hpath'] at heq
      exact absurd heq.symm (target_enginePath_ne_plan _)
    · rw [hplan, hplan']
  · rcases isOutput_or_of_mem hwired hw' with houtput | ⟨-, hcontent'⟩
    · exact absurd (heq ▸ houtput) (hapart.cache _ hpath)
    · exact Option.some.inj (hcontent.symm.trans hcontent')

/-! ## What is left -/

section

variable (hwired : e.Wired) (hapart : Apart o e)
variable (hwrote : Wrote o.out (resultFiles o e calibrator) tree after)
include hwired hapart hwrote

theorem read_of_result {w : String × Bytes} (hw : w ∈ resultFiles o e calibrator) :
    after.read w.1 = .ok w.2 :=
  read_eq_ok_iff.mpr ⟨hwrote.located w hw,
    hwrote.file?_of_mem hw fun _ hw' heq => content_unique hwired hapart hw' hw heq⟩

/-- The inputs are as they were, since they are `Apart` from the results. -/
theorem sameInputs_of_wrote : SameInputs o tree after where
  grows := hwrote.grows
  file?_eq input hinput := by
    obtain ⟨houtput, hcache⟩ := hapart.inputs input hinput
    refine hwrote.file?_eq_of_same fun w hw heq => ?_
    rcases isOutput_or_of_mem hwired hw with hplace | ⟨hpath, -⟩
    · exact absurd (heq ▸ hplace) houtput
    · exact absurd heq.symm (hcache w.1 hpath)

/-- The executable is found again, unless a calibration cache has come up that cannot be read. -/
theorem prepared_after_wrote (hprepared : prepared tree o = .ok (e, calibrator))
    (hreadable : ∀ path, o.calibrationCache = some path →
      calibrator.bind Calibrator.readCache = none → ∃ content, cacheIn after path = .ok content) :
    ∃ calibrator', prepared after o = .ok (e, calibrator') ∧
      ∀ w ∈ cacheFile o calibrator', after.read w.1 = .ok w.2 := by
  have hcache : ∀ w ∈ cacheFile o calibrator, after.read w.1 = .ok w.2 := fun w hw =>
    read_of_result hwired hapart hwrote
      (mem_resultFiles_iff.mpr (Or.inr (Or.inr (mem_cacheFile_iff.mp hw))))
  refine prepared_again (sameInputs_of_wrote hwired hapart hwrote) hprepared hcache ?_
  intro path hpath
  cases hheld : calibrator.bind Calibrator.readCache with
  | none => exact hreadable path hpath hheld
  | some content =>
    have hmem : (path, content) ∈ cacheFile o calibrator := mem_cacheFile_iff.mpr ⟨hpath, hheld⟩
    exact ⟨some content, cacheIn_eq_some_iff.mpr (hcache _ hmem)⟩

end

/-- The one tree is the other one with the results of a compilation, and nothing else. -/
structure LeavesResults (o : CompileOptions) (e : Executable) (calibrator : Option Calibrator)
    (tree after : FileTree) : Prop where
  plan : after.file? (target (planPath o)) = some (Utf8.encode e.toJson.pretty)
  engines : ∀ segment ∈ e.segments, segment.target = .accelerator →
    ∃ bytes report, segment.artifact.engine? = some (bytes, report) ∧
      after.file? (target (enginePath o segment.region)) = some bytes
  cache : ∀ path content, o.calibrationCache = some path →
    calibrator.bind Calibrator.readCache = some content → after.file? (target path) = some content
  others : ∀ l, ¬IsOutput o e l →
    (∀ path, o.calibrationCache = some path → l = target path →
      calibrator.bind Calibrator.readCache = none) →
    after.file? l = tree.file? l
  dirs : ∀ l, l ∈ tree.dirs → l ∈ after.dirs
  newDirs : ∀ l ∈ after.dirs, l ∈ tree.dirs ∨
    ∃ names ∈ wayTo o.out, l = names.foldl enter (start o.out)

/-- Files that were all written are left as results: what is at a place was written there once, by
`Wrote.file?_of_mem`, and what was not written is as it was. -/
theorem leavesResults_of_wrote (hwired : e.Wired) (hapart : Apart o e)
    (hwrote : Wrote o.out (resultFiles o e calibrator) tree after) :
    LeavesResults o e calibrator tree after := by
  have hfile : ∀ path content, (path, content) ∈ resultFiles o e calibrator →
      after.file? (target path) = some content :=
    fun path content hw => (read_eq_ok_iff.mp (read_of_result hwired hapart hwrote hw)).2
  refine ⟨?_, ?_, ?_, ?_, hwrote.grows, hwrote.new⟩
  · exact hfile _ _ (mem_resultFiles_iff.mpr (Or.inr (Or.inl rfl)))
  · intro segment hmem htarget
    obtain ⟨bytes, report, hsome⟩ := hwired.exists_engine hmem htarget
    have hengine := hwired.mem_engines_iff.mpr ⟨hmem, htarget, report, hsome⟩
    exact ⟨bytes, report, hsome,
      hfile _ _ (mem_resultFiles_iff.mpr (Or.inl ⟨segment, hengine, rfl⟩))⟩
  · intro path content hpath hcontent
    exact hfile _ _ (mem_resultFiles_iff.mpr (Or.inr (Or.inr ⟨hpath, hcontent⟩)))
  · intro l houtput hcache
    refine hwrote.file?_eq_of_same fun w hw heq => ?_
    rcases isOutput_or_of_mem hwired hw with hplace | ⟨hpath, hcontent⟩
    · exact absurd (heq ▸ hplace) houtput
    · rw [hcache w.1 hpath heq.symm] at hcontent
      cases hcontent

/-! ## Running again -/

/-- What is written for a second time is there already. `prepared_after_wrote` gives the second run
the results of the first, and a write of what is there changes nothing (`Wrote.file?_eq_of_same`).
-/
theorem rerun_keeps {words : List String} (hwords : Command.ofWords words = .ok (.compile o))
    (hprepared : prepared tree o = .ok (e, calibrator)) (hapart : Apart o e)
    (hwrote : Wrote o.out (resultFiles o e calibrator) tree after) {l : Location}
    (hplan : l ≠ target (planPath o)) : (run after words).tree.file? l = after.file? l := by
  have hwired := wired_of_prepared hprepared
  rcases run_compile_cases after hwords with
    ⟨-, -, -, hsame⟩ | ⟨e', calibrator', done, hprepared', hdone, hwrote', -⟩
  · rw [hsame]
  · obtain ⟨calibrator'', hprepared'', hcache⟩ := prepared_after_wrote hwired hapart hwrote hprepared
      fun _ hpath _ => exists_cacheIn_of_prepared hprepared' hpath
    obtain ⟨rfl, rfl⟩ := Prod.mk.inj (Except.ok.inj (hprepared'.symm.trans hprepared''))
    refine hwrote'.file?_eq_of_same fun w hw heq => ?_
    have hthere : after.read w.1 = .ok w.2 := by
      rcases mem_resultFiles_iff.mp (hdone.subset hw) with hengine | rfl | hcontent
      · exact read_of_result hwired hapart hwrote (mem_resultFiles_iff.mpr (Or.inl hengine))
      · exact absurd heq.symm hplan
      · exact hcache w (mem_cacheFile_iff.mpr hcontent)
    rw [← heq]
    exact (read_eq_ok_iff.mp hthere).2

/-- A compilation succeeds if there is an executable to write. One that fails changes no file and no
directory; one that succeeds leaves exactly its results. The next one of the same leaves all of them
as they are, but the plan, which tells how long the builds took: it finds the same executable, unless
the calibrator held no cache and there now is one that cannot be read. -/
theorem compile_changes_exactly_results {words : List String}
    (hwords : Command.ofWords words = .ok (.compile o)) (hcan : CanWrite tree o)
    (hapart : ∀ e calibrator, prepared tree o = .ok (e, calibrator) → Apart o e) :
    ((run tree words).exit = 0 ↔ ∃ results, prepared tree o = .ok results) ∧
      ((run tree words).exit ≠ 0 → (run tree words).tree = tree) ∧
      ((run tree words).exit = 0 → ∃ e calibrator, prepared tree o = .ok (e, calibrator) ∧
        LeavesResults o e calibrator tree (run tree words).tree ∧
        (∀ l, l ≠ target (planPath o) →
          (run (run tree words).tree words).tree.file? l = (run tree words).tree.file? l) ∧
        ((∀ path, o.calibrationCache = some path →
            calibrator.bind Calibrator.readCache = none →
            ∃ content, cacheIn (run tree words).tree path = .ok content) →
          ∃ calibrator', prepared (run tree words).tree o = .ok (e, calibrator'))) := by
  rcases run_compile_cases tree hwords with
    ⟨failure, herror, hne, hsame⟩ |
    ⟨e, calibrator, done, hprepared, -, hwrote, ⟨hexit, rfl⟩ | ⟨-, hcannot⟩⟩
  · refine ⟨⟨fun hok => absurd hok hne, ?_⟩, fun _ => hsame, fun hok => absurd hok hne⟩
    rintro ⟨results, hprepared⟩
    rw [herror] at hprepared
    cases hprepared
  · have happart := hapart e calibrator hprepared
    have hwired := wired_of_prepared hprepared
    refine ⟨⟨fun _ => ⟨_, hprepared⟩, fun _ => hexit⟩, fun hfailed => absurd hexit hfailed,
      fun _ => ⟨e, calibrator, hprepared, ?_, ?_, ?_⟩⟩
    · exact leavesResults_of_wrote hwired happart hwrote
    · exact fun l hplan => rerun_keeps hwords hprepared happart hwrote hplan
    · intro hreadable
      obtain ⟨calibrator', hprepared', -⟩ :=
        prepared_after_wrote hwired happart hwrote hprepared hreadable
      exact ⟨calibrator', hprepared'⟩
  · exact absurd hcan hcannot

/-! ## An instance

The small graph is compiled for int8, with a calibration cache that is not there yet. -/

/-- The small graph has results that can be written and are apart. They are computed, and checked
for both at once by evaluation. -/
theorem exists_smallResults :
    ∃ e calibrator content, prepared smallTree (smallOptions "m") = .ok (e, calibrator) ∧
      CanWrite smallTree (smallOptions "m") ∧ Apart (smallOptions "m") e ∧
      calibrator.bind Calibrator.readCache = some content := by
  obtain ⟨⟨e, calibrator⟩, hprepared⟩ := exists_eq_ok_of_isOk
    (show (prepared smallTree (smallOptions "m")).isOk = true by decide +kernel)
  have hcheck : (prepared smallTree (smallOptions "m")).toOption.all (fun results =>
      ((writeResults (smallOptions "m") results.1 results.2).run ⟨smallTree, []⟩ :
        Except Failure Unit × Screen).1.isOk &&
      (results.2.bind Calibrator.readCache).isSome &&
      results.1.segments.all fun segment =>
        !([["g"], ["r"], ["c"]].contains
          (target (enginePath (smallOptions "m") segment.region)))) = true := by
    decide +kernel
  rw [hprepared] at hcheck
  simp only [Except.toOption, Option.all_some, Bool.and_eq_true, List.all_eq_true] at hcheck
  obtain ⟨⟨hwritten, hheld⟩, hplaces⟩ := hcheck
  obtain ⟨content, hcontent⟩ := Option.isSome_iff_exists.mp hheld
  refine ⟨e, calibrator, content, hprepared, ?_, ?_, hcontent⟩
  · intro e' calibrator' hprepared'
    obtain ⟨rfl, rfl⟩ := Prod.mk.inj (Except.ok.inj (hprepared'.symm.trans hprepared))
    obtain ⟨⟨⟩, hdone⟩ := exists_eq_ok_of_isOk hwritten
    exact ⟨_, Prod.ext hdone rfl⟩
  · have hother : ∀ place ∈ [["g"], ["r"], ["c"]], ¬IsOutput (smallOptions "m") e place := by
      rintro place hplace (rfl | ⟨segment, hmem, -, rfl⟩)
      · exact absurd hplace (by decide +kernel)
      · exact absurd hplace (by simpa using hplaces segment hmem)
    refine ⟨fun path hpath => ?_, fun input hinput => ?_⟩
    · obtain rfl : "c" = path := Option.some.inj hpath
      exact hother _ (by decide)
    · have hmem : input ∈ ["g", "r"] := hinput
      simp only [List.mem_cons, List.not_mem_nil, or_false] at hmem
      rcases hmem with rfl | rfl
      all_goals
        refine ⟨hother _ (by decide), fun path hpath => ?_⟩
        obtain rfl : "c" = path := Option.some.inj hpath
        decide

/-- The small graph is compiled, its results are left, and the next compilation finds the same
executable. -/
theorem compile_changes_exactly_results_small :
    (run smallTree (smallCompile "m")).exit = 0 ∧
      ∃ e calibrator content, LeavesResults (smallOptions "m") e calibrator smallTree
          (run smallTree (smallCompile "m")).tree ∧
        calibrator.bind Calibrator.readCache = some content ∧
        ∃ calibrator', prepared (run smallTree (smallCompile "m")).tree (smallOptions "m") =
          .ok (e, calibrator') := by
  have hwords : Command.ofWords (smallCompile "m") = .ok (.compile (smallOptions "m")) := by
    decide +kernel
  obtain ⟨e, calibrator, content, hprepared, hcan, hapart, hcontent⟩ := exists_smallResults
  have honly : ∀ e' calibrator', prepared smallTree (smallOptions "m") = .ok (e', calibrator') →
      e' = e ∧ calibrator' = calibrator := fun _ _ h =>
    Prod.mk.inj (Except.ok.inj (h.symm.trans hprepared))
  obtain ⟨hsucceeds, -, hleaves⟩ := compile_changes_exactly_results hwords hcan fun e' calibrator' h =>
    (honly e' calibrator' h).1 ▸ hapart
  have hok := hsucceeds.mpr ⟨_, hprepared⟩
  obtain ⟨e', calibrator', hprepared', hleaves, -, hagain⟩ := hleaves hok
  obtain ⟨rfl, rfl⟩ := honly e' calibrator' hprepared'
  refine ⟨hok, e', calibrator', content, hleaves, hcontent, hagain fun path _ hnone => ?_⟩
  rw [hcontent] at hnone
  cases hnone

end HybridCompile.Console
