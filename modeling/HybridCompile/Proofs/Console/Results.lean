import HybridCompile.Proofs.Console.Reading
import HybridCompile.Proofs.Files.Writing

/-!
# HybridCompile — what `compile` writes

The results of a compilation are a list of files, each with its path and its content. They are
written one after another, so that what is there after a fault is the beginning of that list.

* `resultFiles` — the files.
* `Action.Writes`, `writes_writeResults` — writing them.
* `run_compile_cases` — how `compile` comes out, and what it does to the files.
-/

namespace HybridCompile.Console

open FileTree

/-! ## Writing -/

/-- An action that writes these files, or the first of them if it fails. It prints nothing, and does
not look at what was printed. -/
def Action.Writes (x : Action Unit) (out : String) (writes : List (String × Bytes)) : Prop :=
  ∀ tree, ∃ outcome tree' done, (∀ lines, x.run ⟨tree, lines⟩ = (outcome, ⟨tree', lines⟩)) ∧
    done <+: writes ∧ Wrote out done tree tree' ∧ (outcome = .ok () → done = writes)

namespace Action.Writes

variable {x y : Action Unit} {out : String} {writes writes' : List (String × Bytes)}

theorem nothing (out : String) : Writes (pure ()) out [] := fun tree =>
  ⟨.ok (), tree, [], fun _ => rfl, List.prefix_refl [], .rfl out tree, fun _ => rfl⟩

/-- Two actions, one after the other: if the first fails, what was written is a beginning of its own
files. -/
theorem andThen (h : x.Writes out writes) (h' : y.Writes out writes') :
    Writes (x >>= fun _ => y) out (writes ++ writes') := by
  intro tree
  obtain ⟨outcome, tree', done, hrun, hdone, hwrote, hall⟩ := h tree
  cases outcome with
  | error failure =>
    exact ⟨.error failure, tree', done, fun lines => run_bind_of_error (hrun lines),
      hdone.trans (List.prefix_append _ _), hwrote, fun h => (by cases h)⟩
  | ok =>
    obtain rfl := hall rfl
    obtain ⟨outcome', tree'', done', hrun', hdone', hwrote', hall'⟩ := h' tree'
    refine ⟨outcome', tree'', done ++ done',
      fun lines => (run_bind_of_ok (hrun lines)).trans (hrun' lines),
      (List.prefix_append_right_inj done).mpr hdone', hwrote.trans hwrote', fun hok => ?_⟩
    rw [hall' hok]

/-- One file: it is written, or the action fails and nothing changes. -/
theorem change (text path : String) (content : Bytes) (out : String) :
    Writes (Console.change text (·.write path content)) out [(path, content)] := by
  intro tree
  have hrun : ∀ lines, (Console.change text (·.write path content)).run ⟨tree, lines⟩ =
      ((orFail (.ofFile text) (tree.write path content)) >>= fun tree' =>
        modify fun screen => { screen with tree := tree' }).run ⟨tree, lines⟩ :=
    fun lines => run_bind_of_ok (run_files ⟨tree, lines⟩)
  cases hwrite : tree.write path content with
  | ok tree' =>
    rw [hwrite] at hrun
    exact ⟨.ok (), tree', _, hrun, List.prefix_refl _, wrote_of_write out hwrite, fun _ => rfl⟩
  | error fault =>
    rw [hwrite] at hrun
    exact ⟨.error (.ofFile text fault), tree, [], hrun, List.nil_prefix, .rfl out tree,
      fun h => (by cases h)⟩

/-- Directories: those around may be there even if the last cannot be made, but no file is touched.
-/
theorem makeDirs (out : String) : Writes (Console.makeDirs out) out [] := by
  intro tree
  have hwrote := wrote_of_createDirs tree out
  obtain ⟨outcome, hrun⟩ : ∃ outcome, ∀ lines,
      (Console.makeDirs out).run ⟨tree, lines⟩ = (outcome, ⟨(tree.createDirs out).1, lines⟩) := by
    unfold Console.makeDirs
    simp only [run_bind_of_ok (run_files _)]
    rcases tree.createDirs out with ⟨tree', _ | fault⟩
    · exact ⟨.ok (), fun _ => rfl⟩
    · exact ⟨.error (.ofFile s!"cannot create '{out}'" fault), fun _ => rfl⟩
  exact ⟨outcome, _, [], hrun, List.prefix_refl [], hwrote, fun _ => rfl⟩

/-- A list of files, one after another. Induction on the list. -/
theorem forM {α : Type} {f : α → Action Unit} {file : α → String × Bytes} {xs : List α}
    (h : ∀ a, (f a).Writes out [file a]) : Writes (xs.forM f) out (xs.map file) := by
  induction xs with
  | nil => exact .nothing out
  | cons a rest ih => exact .andThen (h a) ih

end Action.Writes

/-! ## The results -/

/-- The name of the file of an engine. -/
def engineName (region : Nat) : String := s!"region-{region}.engine"

theorem toList_engineName (region : Nat) :
    (engineName region).toList =
      "region-".toList ++ Nat.toDigits 10 region ++ ".engine".toList := by
  show ("region-" ++ Nat.repr region ++ ".engine").toList = _
  rw [String.toList_append, String.toList_append, Nat.repr_eq_ofList_toDigits]
  exact congrArg (fun digits => _ ++ digits ++ _) String.toList_ofList

/-- The name of an engine's file means nothing else in a path: it begins with a letter and has no
slash. -/
theorem isName_engineName (region : Nat) : IsName (engineName region) := by
  have hfirst : (engineName region).toList.head? = some 'r' := by
    rw [toList_engineName]
    rfl
  refine ⟨fun hslash => ?_, fun h => ?_, fun h => ?_, fun h => ?_⟩
  · rw [toList_engineName, List.mem_append, List.mem_append] at hslash
    rcases hslash with (hslash | hslash) | hslash
    · exact absurd hslash (by decide)
    · exact absurd (Nat.isDigit_of_mem_toDigits (by decide) (by decide) hslash) (by decide)
    · exact absurd hslash (by decide)
  all_goals
    rw [h] at hfirst
    exact absurd hfirst (by decide)

theorem isName_plan : IsName "plan.json" := by
  refine ⟨?_, ?_, ?_, ?_⟩ <;> decide

theorem engineName_inj {region region' : Nat} (h : engineName region = engineName region') :
    region = region' := by
  have hlist := congrArg String.toList h
  rw [toList_engineName, toList_engineName] at hlist
  have hdigits := List.append_cancel_left (List.append_cancel_right hlist)
  rw [← Nat.ofDigitChars_toDigits (b := 10) (n := region) (by decide) (by decide), hdigits,
    Nat.ofDigitChars_toDigits (by decide) (by decide)]

theorem engineName_ne_plan (region : Nat) : engineName region ≠ "plan.json" := by
  intro h
  have hfirst := congrArg List.head? (toList_engineName region)
  rw [h] at hfirst
  exact absurd (show some 'p' = some 'r' from hfirst) (by decide)

/-- The calibrator's cache, if it is to be written. -/
def cacheFile (o : CompileOptions) (calibrator : Option Calibrator) : List (String × Bytes) :=
  match o.calibrationCache, calibrator.bind Calibrator.readCache with
  | some path, some content => [(path, content)]
  | _, _ => []

/-- The files that `compile` writes, in order. -/
def resultFiles (o : CompileOptions) (e : Executable) (calibrator : Option Calibrator) :
    List (String × Bytes) :=
  (e.engines.map fun engine => (joinPath o.out (engineName engine.1.region), engine.2)) ++
    ((joinPath o.out "plan.json", Utf8.encode e.toJson.pretty) :: cacheFile o calibrator)

/-- Writing the results is writing `resultFiles`, in that order: directories first, which are no
files, then the engines, the plan, and the cache if there is one. -/
theorem writes_writeResults (o : CompileOptions) (e : Executable) (calibrator : Option Calibrator) :
    (writeResults o e calibrator).Writes o.out (resultFiles o e calibrator) := by
  have hengines : Action.Writes
      (e.engines.forM fun engine =>
        writeFile (joinPath o.out s!"region-{engine.1.region}.engine") engine.2) o.out
      (e.engines.map fun engine => (joinPath o.out (engineName engine.1.region), engine.2)) :=
    .forM fun engine => .change _ _ engine.2 _
  have hplan : Action.Writes (writeFile (joinPath o.out "plan.json") (Utf8.encode e.toJson.pretty))
      o.out [(joinPath o.out "plan.json", Utf8.encode e.toJson.pretty)] :=
    .change _ _ _ _
  refine (Action.Writes.makeDirs o.out).andThen (hengines.andThen (hplan.andThen ?_))
  cases o.calibrationCache with
  | none => exact .nothing _
  | some path =>
    cases calibrator.bind Calibrator.readCache with
    | none => exact .nothing _
    | some content => exact .change _ path content _

theorem run_forM_say (lines : List String) (screen : Screen) :
    (lines.forM say).run screen = (.ok (), ⟨screen.tree, screen.lines ++ lines.map .text⟩) := by
  induction lines generalizing screen with
  | nil => exact congrArg (Prod.mk _) (congrArg (Screen.mk _) (List.append_nil _).symm)
  | cons line rest ih =>
    show (say line >>= fun _ => rest.forM say).run screen = _
    rw [run_bind_of_ok (run_say line screen), ih]
    simp

/-- If there are results, all of them can be written. -/
def CanWrite (tree : FileTree) (o : CompileOptions) : Prop :=
  ∀ e calibrator, prepared tree o = .ok (e, calibrator) →
    ∃ screen, (writeResults o e calibrator).run ⟨tree, []⟩ = (.ok (), screen)

/-- How `compile` comes out. If it fails before it writes anything, all files are as they were;
otherwise its results are written, all of them if that does not fail. -/
theorem run_compile_cases (tree : FileTree) {words : List String} {o : CompileOptions}
    (hwords : Command.ofWords words = .ok (.compile o)) :
    (∃ failure, prepared tree o = .error failure ∧ (run tree words).exit ≠ 0 ∧
      (run tree words).tree = tree) ∨
    ∃ e calibrator done, prepared tree o = .ok (e, calibrator) ∧
      done <+: resultFiles o e calibrator ∧ Wrote o.out done tree (run tree words).tree ∧
      ((run tree words).exit = 0 ∧ done = resultFiles o e calibrator ∨
        (run tree words).exit ≠ 0 ∧ ¬CanWrite tree o) := by
  obtain ⟨lines, hprepare⟩ := reads_prepare o ⟨tree, []⟩
  dsimp only at hprepare
  cases hprepared : prepared tree o with
  | error failure =>
    rw [hprepared] at hprepare
    have hcompile := (congrArg (·.run ⟨tree, []⟩) (compile_eq o)).trans (run_bind_of_error hprepare)
    have hrun := run_of_error hwords hcompile
    exact Or.inl ⟨failure, rfl, by rw [hrun]; exact failure.exit_ne_zero, by rw [hrun]⟩
  | ok results =>
    obtain ⟨e, calibrator⟩ := results
    rw [hprepared] at hprepare
    have hcompile := (congrArg (·.run ⟨tree, []⟩) (compile_eq o)).trans (run_bind_of_ok hprepare)
    obtain ⟨outcome, tree', done, hwrites, hdone, hwrote, hall⟩ :=
      writes_writeResults o e calibrator tree
    refine Or.inr ⟨e, calibrator, done, rfl, hdone, ?_⟩
    cases outcome with
    | error failure =>
      have hrun := run_of_error hwords (hcompile.trans (run_bind_of_error (hwrites _)))
      rw [hrun]
      refine ⟨hwrote, Or.inr ⟨failure.exit_ne_zero, fun hcan => ?_⟩⟩
      obtain ⟨screen, hwritten⟩ := hcan e calibrator hprepared
      rw [hwrites] at hwritten
      cases congrArg Prod.fst hwritten
    | ok =>
      have hfinish : (finish o e calibrator).run ⟨tree, [] ++ lines⟩ = _ :=
        (run_bind_of_ok (hwrites _)).trans (run_forM_say _ _)
      have hrun := run_of_ok hwords (hcompile.trans hfinish)
      rw [hrun]
      exact ⟨hwrote, Or.inl ⟨rfl, hall rfl⟩⟩

/-! ## Where the results are -/

/-- The path of an engine, and that of the plan. -/
def enginePath (o : CompileOptions) (region : Nat) : String := joinPath o.out (engineName region)

def planPath (o : CompileOptions) : String := joinPath o.out "plan.json"

section

variable {o : CompileOptions} {e : Executable} {calibrator : Option Calibrator}
variable {tree tree' : FileTree} {w : String × Bytes}

/-- The cache is written exactly if a path was given for it and the calibrator has one. -/
theorem mem_cacheFile_iff :
    w ∈ cacheFile o calibrator ↔
      o.calibrationCache = some w.1 ∧ calibrator.bind Calibrator.readCache = some w.2 := by
  unfold cacheFile
  split
  · next path content hpath hcontent =>
    rw [List.mem_singleton, hpath, hcontent, Option.some.injEq, Option.some.injEq]
    exact ⟨fun h => h ▸ ⟨rfl, rfl⟩, fun h => Prod.ext h.1.symm h.2.symm⟩
  · next hnone =>
    exact ⟨fun h => (by cases h), fun h => absurd h.2 (hnone w.1 w.2 h.1)⟩

/-- A result is an engine, the plan, or the cache. -/
theorem mem_resultFiles_iff :
    w ∈ resultFiles o e calibrator ↔
      (∃ segment, (segment, w.2) ∈ e.engines ∧ w.1 = enginePath o segment.region) ∨
      w = (planPath o, Utf8.encode e.toJson.pretty) ∨
      (o.calibrationCache = some w.1 ∧ calibrator.bind Calibrator.readCache = some w.2) := by
  unfold resultFiles
  rw [List.mem_append, List.mem_cons, mem_cacheFile_iff, List.mem_map]
  refine or_congr_left ⟨?_, ?_⟩
  · rintro ⟨⟨segment, bytes⟩, hmem, rfl⟩
    exact ⟨segment, hmem, rfl⟩
  · rintro ⟨segment, hmem, hpath⟩
    exact ⟨(segment, w.2), hmem, Prod.ext hpath.symm rfl⟩

theorem target_enginePath_inj {i j : Nat} (h : target (enginePath o i) = target (enginePath o j)) :
    i = j :=
  engineName_inj (target_joinPath_inj (isName_engineName i) (isName_engineName j) h)

theorem target_enginePath_ne_plan (i : Nat) : target (enginePath o i) ≠ target (planPath o) := fun h =>
  engineName_ne_plan i (target_joinPath_inj (isName_engineName i) isName_plan h)

/-- The plan is written, unless the calibration cache is put in its place. Engines have other places
by `target_enginePath_ne_plan`. -/
theorem file?_plan (h : Wrote o.out (resultFiles o e calibrator) tree tree')
    (hcache : ∀ path, o.calibrationCache = some path → target path ≠ target (planPath o)) :
    tree'.file? (target (planPath o)) = some (Utf8.encode e.toJson.pretty) := by
  refine h.file?_of_mem (mem_resultFiles_iff.mpr (Or.inr (Or.inl rfl))) fun w hw heq => ?_
  rcases mem_resultFiles_iff.mp hw with ⟨segment, -, hpath⟩ | hplan | ⟨hpath, -⟩
  · rw [hpath] at heq
    exact absurd heq (target_enginePath_ne_plan _)
  · rw [hplan]
  · exact absurd heq (hcache _ hpath)

end

/-! ## A small tree

A graph of one operator, with its fields in order instead of by name, and a request for int8. -/

def smallGraph : String := "[\"n\",[\"x\"],[\"y\"],[[\"a\",\"k\",[],[\"x\"],[\"y\"]]]]"

def smallRequest : String :=
  "enabled_precisions=[\"int8\"]\n[[inputs]]\nshape=[1]\ndtype=\"float\""

def smallTree : FileTree :=
  ⟨[(["g"], Utf8.encode smallGraph), (["r"], Utf8.encode smallRequest)], []⟩

/-- The small graph is compiled with a calibration cache, and one kind needs frozen modules. -/
def smallCompile (frozenOnly : String) : List String :=
  ["compile", "-gg", "-sr", "--calibration-cache=c", "--frozen-only=" ++ frozenOnly]

def smallOptions (frozenOnly : String) : CompileOptions :=
  ⟨"g", "r", "build", some "c", [], ⟨[], [frozenOnly]⟩, none⟩

end HybridCompile.Console
