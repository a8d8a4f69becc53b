import HybridCompile.Proofs.Calibration.Reuse
import HybridCompile.Proofs.Console.Results

/-!
# HybridCompile — the same inputs again

What a command finds depends on the files that it reads alone. Where these are as they were, and the
calibration cache holds what the calibrator has left, `compile` finds the same executable again.

* `SameInputs` — trees that agree about what `compile` reads.
* `graphIn_again`, `settingsIn_again`, `configIn_again`, `inputsIn_again` — what is found again.
* `prepared_again` — the same executable.
-/

namespace HybridCompile.Console

open FileTree

variable {tree tree' : FileTree} {o : CompileOptions}

/-! ## The inputs -/

/-- The files that `compile` reads beside the calibration cache. -/
def CompileOptions.inputPaths (o : CompileOptions) : List String :=
  o.graph :: o.settings :: o.config.toList

/-- The inputs are as they were, and can still be reached. -/
structure SameInputs (o : CompileOptions) (tree tree' : FileTree) : Prop where
  grows : tree.Grows tree'
  file?_eq : ∀ path ∈ o.inputPaths, tree'.file? (target path) = tree.file? (target path)

theorem readText_again (h : SameInputs o tree tree') {path text : String} (hpath : path ∈ o.inputPaths)
    (hread : tree.readText path = .ok text) : tree'.readText path = .ok text :=
  readText_of_grows h.grows (h.file?_eq path hpath) hread

/-- The same graph is found again. -/
theorem graphIn_again (h : SameInputs o tree tree') {g : ValidGraph}
    (hgraph : graphIn tree o.graph = .ok g) : graphIn tree' o.graph = .ok g := by
  unfold graphIn Manifest.load at hgraph ⊢
  cases hread : tree.readText o.graph with
  | error fault =>
    rw [hread] at hgraph
    cases hgraph
  | ok text =>
    rw [hread] at hgraph
    rw [readText_again h List.mem_cons_self hread]
    exact hgraph

theorem settingsIn_again (h : SameInputs o tree tree') {s : Settings}
    (hsettings : settingsIn tree o.settings = .ok s) : settingsIn tree' o.settings = .ok s := by
  unfold settingsIn Request.load at hsettings ⊢
  cases hread : tree.readText o.settings with
  | error fault =>
    rw [hread] at hsettings
    cases hsettings
  | ok text =>
    rw [hread] at hsettings
    rw [readText_again h (List.mem_cons_of_mem _ List.mem_cons_self) hread]
    exact hsettings

/-- The same configuration is found again; without a file it is the default both times. With one,
`readText_again` reads the same text, since results are not written over what is read. -/
theorem configIn_again (h : SameInputs o tree tree') {config : Config}
    (hconfig : configIn tree o.config = .ok config) : configIn tree' o.config = .ok config := by
  cases hpath : o.config with
  | none =>
    rw [hpath] at hconfig
    exact hconfig
  | some path =>
    rw [hpath] at hconfig
    dsimp only [configIn, Config.load] at hconfig ⊢
    cases hread : tree.readText path with
    | error fault =>
      rw [hread] at hconfig
      cases hconfig
    | ok text =>
      rw [hread] at hconfig
      have hmem : path ∈ o.inputPaths := by simp [CompileOptions.inputPaths, hpath]
      rw [readText_again h hmem hread]
      exact hconfig

/-- All is found again, step by step in the order in which `inputsIn` reads it. -/
theorem inputsIn_again (h : SameInputs o tree tree') {inputs : Inputs} {config : Config}
    {request s : Settings} (hinputs : inputsIn tree o = .ok inputs)
    (hread : Readable tree o config request inputs)
    (hcached : cachedIn tree' request o.calibrationCache = .ok s) :
    inputsIn tree' o = .ok { inputs with settings := s } := by
  unfold inputsIn at hinputs ⊢
  obtain ⟨config', hconfig, hinputs⟩ := bind_eq_ok_iff.mp hinputs
  obtain ⟨_, -, hinputs⟩ := bind_eq_ok_iff.mp hinputs
  obtain ⟨_, -, hinputs⟩ := bind_eq_ok_iff.mp hinputs
  obtain ⟨_, -, hinputs⟩ := bind_eq_ok_iff.mp hinputs
  obtain ⟨session, hsession, hinputs⟩ := bind_eq_ok_iff.mp hinputs
  obtain rfl := Except.ok.inj hinputs
  refine bind_eq_ok_iff.mpr ⟨config', configIn_again h hconfig, ?_⟩
  refine bind_eq_ok_iff.mpr ⟨_, graphIn_again h hread.graph_eq, ?_⟩
  refine bind_eq_ok_iff.mpr ⟨_, settingsIn_again h hread.request_eq, ?_⟩
  refine bind_eq_ok_iff.mpr ⟨_, hcached, ?_⟩
  exact bind_eq_ok_iff.mpr ⟨session, hsession, rfl⟩

/-- A graph that is found in a file is sound. -/
theorem sound_of_graphIn {path : String} {g : ValidGraph} (h : graphIn tree path = .ok g) :
    g.Sound := by
  have hload := mapError_eq_ok_iff.mp h
  unfold Manifest.load at hload
  split at hload
  · cases hload
  · split at hload
    · cases hload
    · next m _ =>
      unfold Manifest.toGraph at hload
      obtain ⟨⟨⟩, -, hload⟩ := bind_eq_ok_iff.mp hload
      split at hload
      · next hvalid => exact Graph.sound_of_validate (Except.ok.inj hload ▸ hvalid)
      · cases hload

/-! ## The calibration cache -/

/-- There is something in a cache exactly if its file can be read. -/
theorem cacheIn_eq_some_iff {path : String} {content : Bytes} :
    cacheIn tree path = .ok (some content) ↔ tree.read path = .ok content := by
  unfold cacheIn
  constructor
  · intro h
    split at h
    · rw [← bind_pure_comp] at h
      obtain ⟨content', hread, h⟩ := bind_eq_ok_iff.mp h
      obtain rfl := Option.some.inj (Except.ok.inj h)
      exact mapError_eq_ok_iff.mp hread
    · cases h
  · intro h
    obtain ⟨hlocate, hfile⟩ := read_eq_ok_iff.mp h
    have hthere : tree.exists? path = true := by
      unfold exists?
      simp [hlocate, hfile]
    rw [if_pos hthere, h]
    rfl

/-- Where results are prepared the cache could be read, if there is a path for it. -/
theorem exists_cacheIn_of_prepared {results : Executable × Option Calibrator} {path : String}
    (h : prepared tree o = .ok results) (hpath : o.calibrationCache = some path) :
    ∃ content, cacheIn tree path = .ok content := by
  obtain ⟨inputs, hinputs, -, -⟩ := prepared_eq_ok_iff.mp h
  obtain ⟨config, request, hread⟩ := exists_readable hinputs
  have hcoherent := coherent_of_settingsIn hread.request_eq
  rcases cachedIn_eq_ok hcoherent hread.settings_eq with
    ⟨hnone, -⟩ | ⟨path', content, hpath', hcontent, -⟩
  · rw [hpath] at hnone
    cases hnone
  · obtain rfl := Option.some.inj (hpath.symm.trans hpath')
    exact ⟨content, hcontent⟩

/-- The executable comes out again, and what is then in the calibrator is what is in its file.
Without a cache there is nothing else to read; with one, `compile_reuse` says that the cache that
was left gives the same. -/
theorem prepared_again (h : SameInputs o tree tree') {e : Executable}
    {calibrator : Option Calibrator} (hprepared : prepared tree o = .ok (e, calibrator))
    (hleft : ∀ w ∈ cacheFile o calibrator, tree'.read w.1 = .ok w.2)
    (hreadable : ∀ path, o.calibrationCache = some path →
      ∃ content, cacheIn tree' path = .ok content) :
    ∃ calibrator', prepared tree' o = .ok (e, calibrator') ∧
      ∀ w ∈ cacheFile o calibrator', tree'.read w.1 = .ok w.2 := by
  obtain ⟨inputs, hinputs, hcompiled, hcalibrator⟩ := prepared_eq_ok_iff.mp hprepared
  obtain ⟨config, request, hread⟩ := exists_readable hinputs
  have hcoherent := coherent_of_settingsIn hread.request_eq
  rcases cachedIn_eq_ok hcoherent hread.settings_eq with
    ⟨hpath, hsettings⟩ | ⟨path, content, hpath, -, hs⟩
  · -- without a cache there is nothing else to read
    have hcached : cachedIn tree' request o.calibrationCache = .ok inputs.settings := by
      rw [hpath, hsettings]
      rfl
    refine ⟨calibrator, prepared_eq_ok_iff.mpr
      ⟨inputs, inputsIn_again h hinputs hread hcached, hcompiled, hcalibrator⟩, hleft⟩
  · obtain ⟨content', hcontent'⟩ := hreadable path hpath
    have hcached : cachedIn tree' request o.calibrationCache =
        .ok (request.calibratedBy (.ofCache "calibration-cache" 1 content')) := by
      rw [hpath]
      exact (cachedIn_some_eq_ok_iff hcoherent).mpr ⟨content', hcontent', rfl⟩
    have hbackend : inputs.session.backend = o.backend.toBackend := by rw [hread.session_eq]
    have hc : inputs.settings.calibrator = some (.ofCache "calibration-cache" 1 content) := by
      rw [hs]
      rfl
    obtain ⟨left, hprogress, hagain⟩ :=
      compile_reuse (sound_of_graphIn hread.graph_eq) hbackend hc hcompiled
    have hsame : left = none ∨ content' = left := by
      cases hcase : left with
      | none => exact Or.inl rfl
      | some bytes =>
        have hfile : (path, bytes) ∈ cacheFile o calibrator := by
          refine mem_cacheFile_iff.mpr ⟨hpath, ?_⟩
          rw [hcalibrator, Inputs.result, hprogress, hcase]
          rfl
        have hbytes := cacheIn_eq_some_iff.mpr (hleft _ hfile)
        exact Or.inr (Except.ok.inj (hcontent'.symm.trans hbytes))
    obtain ⟨houtcome, hcalibrator'⟩ := hagain content' hsame
    refine ⟨some (.ofCache "calibration-cache" 1 content'), prepared_eq_ok_iff.mpr
      ⟨_, inputsIn_again h hinputs hread hcached, ?_, ?_⟩, ?_⟩
    · rw [← houtcome, hs]
      rfl
    · rw [← hcalibrator', hs]
      rfl
    · intro w hw
      obtain ⟨hpath', hbytes⟩ := mem_cacheFile_iff.mp hw
      obtain rfl := Option.some.inj (hpath.symm.trans hpath')
      obtain rfl : content' = some w.2 := hbytes
      exact cacheIn_eq_some_iff.mp hcontent'

end HybridCompile.Console
