import HybridCompile.Proofs.Files.Paths
import HybridCompile.Proofs.Outcome

/-!
# HybridCompile — what writing changes

A file that is written is found where its path leads, and nothing else is changed. Making a
directory leaves all files as they are.

* `write_eq_ok`, `read_eq_ok_iff` — one file; `onlyDirs_createDirs` — directories.
* `Wrote` — some files, one after another: `Wrote.file?_of_mem`, `Wrote.file?_eq_of_same`.
* `read_of_grows`, `readText_of_grows` — reading again.
-/

namespace HybridCompile.FileTree

variable {t t' : FileTree} {here l : Location} {path : String} {content : Bytes}

theorem checkPath_eq_ok (h : checkPath path = .ok ()) : path ≠ "" := by
  rintro rfl
  cases h

/-! ## Files -/

/-- A file can be read exactly if its path leads to it and it is there. -/
theorem read_eq_ok_iff :
    t.read path = .ok content ↔
      t.locate path = .ok (target path) ∧ t.file? (target path) = some content := by
  unfold read
  cases hlocate : t.locate path with
  | error fault => exact ⟨fun h => (by cases h), fun h => (by cases h.1)⟩
  | ok l =>
    obtain rfl := locate_eq_ok hlocate
    cases hfile : t.file? (target path) with
    | none =>
      refine ⟨fun h => ?_, fun h => (by cases h.2)⟩
      simp [bind, Except.bind, hfile, throw, throwThe, MonadExceptOf.throw] at h
    | some c =>
      simp [bind, Except.bind, hfile, pure, Except.pure]

/-- Names that end in a directory under a name of their own: the walk follows all names but the
last, and the last is neither `.` nor `..`. -/
theorem ending_eq_ok {names : List String} {dir : Location} {name : String}
    (h : t.ending here names = .ok (dir, some name)) :
    ∃ init, names = init ++ [name] ∧ name ≠ "." ∧ name ≠ ".." ∧ t.follow here init = .ok dir ∧
      t.isDir dir = true := by
  unfold ending at h
  split at h
  · cases h
  · next last hlast =>
    obtain ⟨init, rfl⟩ := List.getLast?_eq_some_iff.mp hlast
    rw [List.dropLast_concat] at h
    obtain ⟨dir', hfollow, h⟩ := bind_eq_ok_iff.mp h
    obtain ⟨hdir, h⟩ := guard_eq_ok_iff.mp h
    obtain ⟨rfl, hname⟩ := Prod.mk.inj (Except.ok.inj h)
    split at hname
    · cases hname
    · next hplain =>
      obtain rfl := Option.some.inj hname
      simp only [Bool.or_eq_true, not_or] at hplain
      exact ⟨init, rfl, by simpa using hplain.1, by simpa using hplain.2, hfollow, by simpa using hdir⟩

theorem within_eq_ok {dir : Location} {name : String} (h : within dir name = .ok l) :
    name.utf8ByteSize ≤ maxName ∧ l = dir ++ [name] := by
  unfold within at h
  split at h
  · cases h
  · next hsize => exact ⟨Nat.le_of_not_lt hsize, (Except.ok.inj h).symm⟩

/-- What is at the end of a name is in the directory before it. -/
theorem foldl_enter_concat {init : List String} {name : String} {dir : Location}
    (hfollow : t.follow here init = .ok dir) (hne : name ≠ "") (hdot : name ≠ ".")
    (hdots : name ≠ "..") : (init ++ [name]).foldl enter here = dir ++ [name] := by
  rw [List.foldl_append, ← follow_eq_ok hfollow]
  simp [enter, hne, hdot, hdots]

theorem ne_empty_of_mem_names {name : String} (h : name ∈ names path) : name ≠ "" := by
  simpa using (List.mem_filter.mp h).2

/-- A file that can be written can be located, and it is the only one that changes. The names lead
where the path does, by `foldl_names`. -/
theorem write_eq_ok (h : t.write path content = .ok t') :
    t.locate path = .ok (target path) ∧
      t' = { t with files := putFile content (target path) t.files } := by
  unfold write at h
  obtain ⟨⟨⟩, hcheck, h⟩ := bind_eq_ok_iff.mp h
  obtain ⟨⟨dir, name?⟩, hending, h⟩ := bind_eq_ok_iff.mp h
  cases name? with
  | none => cases h
  | some name =>
    obtain ⟨init, hnames, hdot, hdots, hfollow, hdir⟩ := ending_eq_ok hending
    obtain ⟨hslash, h⟩ := guard_eq_ok_iff.mp h
    obtain ⟨l, hwithin, h⟩ := bind_eq_ok_iff.mp h
    obtain ⟨-, h⟩ := guard_eq_ok_iff.mp h
    have hmem : name ∈ names path := by simp [hnames]
    have hne : name ≠ "" := ne_empty_of_mem_names hmem
    obtain ⟨hsize, hl⟩ := within_eq_ok hwithin
    have htarget : target path = l := by
      rw [← foldl_names, hnames, foldl_enter_concat hfollow hne hdot hdots, hl]
    refine ⟨?_, by rw [htarget]; exact (Except.ok.inj h).symm⟩
    -- the names lead there, and so does the path, which ends in a name
    have hfollow' : t.follow (start path) (names path) = .ok l := by
      rw [hnames]
      refine follow_append_eq_ok.mpr ⟨dir, hfollow, follow_cons_eq_ok.mpr ⟨hdir, hsize, ?_⟩⟩
      rw [hl]
      simp [follow, enter, hne, hdot, hdots]
    refine locate_eq_ok_iff.mpr ⟨hcheck, ?_⟩
    rw [htarget]
    exact follow_filter (getLast?_parts (checkPath_eq_ok hcheck) hslash) hfollow'

/-! ## Directories -/

/-- A directory that can be made is where its names lead, and nothing else changes. -/
theorem makeDir_eq_ok {names : List String} (hnames : "" ∉ names)
    (h : t.makeDir here names = .ok t') :
    t' = { t with dirs := t.dirs ++ [names.foldl enter here] } := by
  unfold makeDir at h
  obtain ⟨⟨dir, name?⟩, hending, h⟩ := bind_eq_ok_iff.mp h
  cases name? with
  | none => cases h
  | some name =>
    obtain ⟨init, hinit, hdot, hdots, hfollow, -⟩ := ending_eq_ok hending
    obtain ⟨l, hwithin, h⟩ := bind_eq_ok_iff.mp h
    obtain ⟨-, h⟩ := guard_eq_ok_iff.mp h
    have hne : name ≠ "" := fun heq => hnames (by simp [hinit, heq])
    rw [hinit, foldl_enter_concat hfollow hne hdot hdots, ← (within_eq_ok hwithin).2]
    exact (Except.ok.inj h).symm

/-- All files are as they were, and so are the directories, apart from new ones that names lead to. -/
structure OnlyDirs (here : Location) (added : List (List String)) (t t' : FileTree) : Prop where
  files_eq : t'.files = t.files
  grows : t.Grows t'
  new : ∀ l ∈ t'.dirs, l ∈ t.dirs ∨ ∃ names ∈ added, l = names.foldl enter here

theorem OnlyDirs.rfl (added : List (List String)) (t : FileTree) : OnlyDirs here added t t :=
  ⟨Eq.refl _, .rfl t, fun _ h => Or.inl h⟩

theorem OnlyDirs.trans {added : List (List String)} {t'' : FileTree} (h : OnlyDirs here added t t')
    (h' : OnlyDirs here added t' t'') : OnlyDirs here added t t'' :=
  ⟨h'.files_eq.trans h.files_eq, h.grows.trans h'.grows,
    fun l hl => (h'.new l hl).elim (h.new l) Or.inr⟩

theorem onlyDirs_makeDir {added : List (List String)} {names : List String} (hmem : names ∈ added)
    (hnames : "" ∉ names) (h : t.makeDir here names = .ok t') : OnlyDirs here added t t' := by
  obtain rfl := makeDir_eq_ok hnames h
  refine ⟨Eq.refl _, fun l hl => List.mem_append_left _ hl, fun l hl => ?_⟩
  exact (List.mem_append.mp hl).imp_right fun hnew => ⟨names, hmem, List.mem_singleton.mp hnew⟩

/-- The trees on the way are those of the calls inside: first those for the directories around.
Induction on the directories that are left to make. -/
theorem onlyDirs_makeDirs {added : List (List String)} (t : FileTree) (here : Location)
    {todo : List (List String)} (hsub : ∀ names ∈ todo, names ∈ added)
    (hnames : ∀ names ∈ todo, "" ∉ names) : OnlyDirs here added t (t.makeDirs here todo).1 := by
  induction todo generalizing t with
  | nil => exact .rfl added t
  | cons names outer ih =>
    obtain ⟨hmem, hsub⟩ := List.forall_mem_cons.mp hsub
    obtain ⟨hplain, hnames⟩ := List.forall_mem_cons.mp hnames
    have houter := ih t hsub hnames
    unfold makeDirs
    cases hmake : t.makeDir here names with
    | ok t₁ => exact onlyDirs_makeDir hmem hplain hmake
    | error fault =>
      cases fault with
      | missing =>
        cases hrest : t.makeDirs here outer with
        | mk t₁ fault? =>
          rw [hrest] at houter
          cases fault? with
          | some fault => simpa [hrest] using houter
          | none =>
            cases hagain : t₁.makeDir here names with
            | ok t₂ => simpa [hrest, hagain] using houter.trans (onlyDirs_makeDir hmem hplain hagain)
            | error fault => simpa [hrest, hagain] using houter
      | _ => exact .rfl added t

/-- The names on the way to a path: what `createDirs` may make. -/
def wayTo (path : String) : List (List String) :=
  let own := (names path).filter (· ≠ ".")
  names path :: ((List.range own.length).map own.take).reverse

/-- Making a directory with all around it adds nothing but directories on the way to its path. -/
theorem onlyDirs_createDirs (t : FileTree) (path : String) :
    OnlyDirs (start path) (wayTo path) t (t.createDirs path).1 := by
  unfold createDirs
  split
  · exact .rfl _ t
  · refine onlyDirs_makeDirs t (start path) (fun _ h => h) fun ns hns hmem => ?_
    have hnone : "" ∉ names path := fun h => ne_empty_of_mem_names h (Eq.refl _)
    rcases List.mem_cons.mp hns with rfl | hns
    · exact hnone hmem
    · obtain ⟨k, -, rfl⟩ := List.mem_map.mp (List.mem_reverse.mp hns)
      exact hnone (List.mem_of_mem_filter (List.mem_of_mem_take hmem))

/-! ## One thing after another -/

/-- Some files were written, one after another, and the directories to a path were made. -/
structure Wrote (out : String) (writes : List (String × Bytes)) (t t' : FileTree) : Prop where
  files_eq : t'.files = writes.foldl (fun files w => putFile w.2 (target w.1) files) t.files
  located : ∀ w ∈ writes, t'.locate w.1 = .ok (target w.1)
  grows : t.Grows t'
  new : ∀ l ∈ t'.dirs, l ∈ t.dirs ∨ ∃ names ∈ wayTo out, l = names.foldl enter (start out)

section

variable {out : String} {writes writes' : List (String × Bytes)} {t'' : FileTree}

theorem Wrote.rfl (out : String) (t : FileTree) : Wrote out [] t t :=
  ⟨Eq.refl _, fun _ h => (by cases h), .rfl t, fun _ h => Or.inl h⟩

theorem Wrote.trans (h : Wrote out writes t t') (h' : Wrote out writes' t' t'') :
    Wrote out (writes ++ writes') t t'' where
  files_eq := by rw [h'.files_eq, h.files_eq, List.foldl_append]
  located := List.forall_mem_append.mpr ⟨fun w hw => locate_mono h'.grows (h.located w hw), h'.located⟩
  grows := h.grows.trans h'.grows
  new l hl := (h'.new l hl).elim (h.new l) Or.inr

theorem wrote_of_write (out : String) (h : t.write path content = .ok t') :
    Wrote out [(path, content)] t t' := by
  obtain ⟨hlocate, rfl⟩ := write_eq_ok h
  refine ⟨Eq.refl _, fun w hw => ?_, fun _ hl => hl, fun _ hl => Or.inl hl⟩
  obtain rfl := List.mem_singleton.mp hw
  exact locate_mono (t := t) (fun _ hl => hl) hlocate

theorem wrote_of_createDirs (t : FileTree) (out : String) :
    Wrote out [] t (t.createDirs out).1 :=
  have h := onlyDirs_createDirs t out
  ⟨h.files_eq, fun _ h => (by cases h), h.grows, h.new⟩

/-- A file that all writes leave as it is. Induction on the writes, over all files before them;
`lookup_putFile` is the step. -/
theorem Wrote.file?_eq_of_same (h : Wrote out writes t t')
    (hsame : ∀ w ∈ writes, target w.1 = l → t.file? l = some w.2) : t'.file? l = t.file? l := by
  have hlookup : ∀ files : List (Location × Bytes),
      (∀ w ∈ writes, target w.1 = l → files.lookup l = some w.2) →
      (writes.foldl (fun files w => putFile w.2 (target w.1) files) files).lookup l =
        files.lookup l := by
    clear h hsame
    induction writes with
    | nil => exact fun _ _ => Eq.refl _
    | cons w rest ih =>
      intro files hsame
      obtain ⟨hw, hrest⟩ := List.forall_mem_cons.mp hsame
      have hput : (putFile w.2 (target w.1) files).lookup l = files.lookup l := by
        rw [lookup_putFile]
        split
        · next heq => exact (hw heq.symm).symm
        · exact Eq.refl _
      rw [List.foldl_cons, ih _ fun w' hw' heq => hput.trans (hrest w' hw' heq), hput]
  unfold file?
  rw [h.files_eq]
  exact hlookup t.files hsame

/-- What is written to a place once, or more than once with one content, is found there. Induction
on the writes; those behind the last to this place leave it as it is. -/
theorem Wrote.file?_of_mem (h : Wrote out writes t t') (hmem : (path, content) ∈ writes)
    (honce : ∀ w ∈ writes, target w.1 = target path → w.2 = content) :
    t'.file? (target path) = some content := by
  have hlookup : ∀ files : List (Location × Bytes),
      ((path, content) ∈ writes ∨ files.lookup (target path) = some content) →
      (writes.foldl (fun files w => putFile w.2 (target w.1) files) files).lookup (target path) =
        some content := by
    clear h hmem
    induction writes with
    | nil => exact fun _ h => h.resolve_left (List.not_mem_nil)
    | cons first rest ih =>
      intro files hfound
      obtain ⟨hfirst, hrest⟩ := List.forall_mem_cons.mp honce
      refine ih hrest _ ?_
      by_cases heq : target first.1 = target path
      · refine Or.inr ?_
        rw [lookup_putFile, if_pos heq.symm, hfirst heq]
      · refine hfound.imp (fun hmem => ?_) fun hold => ?_
        · refine (List.mem_cons.mp hmem).resolve_left fun h => heq ?_
          rw [← h]
        · rw [lookup_putFile, if_neg (Ne.symm heq), hold]
  unfold file?
  rw [h.files_eq]
  exact hlookup t.files (Or.inl hmem)

end

/-! ## Reading again -/

/-- More directories take no file away. -/
theorem read_of_grows (hgrows : t.Grows t') (hfile : t'.file? (target path) = t.file? (target path))
    (h : t.read path = .ok content) : t'.read path = .ok content := by
  obtain ⟨hlocate, hcontent⟩ := read_eq_ok_iff.mp h
  exact read_eq_ok_iff.mpr ⟨locate_mono hgrows hlocate, hfile.trans hcontent⟩

theorem readText_of_grows {text : String} (hgrows : t.Grows t')
    (hfile : t'.file? (target path) = t.file? (target path)) (h : t.readText path = .ok text) :
    t'.readText path = .ok text := by
  unfold readText at h ⊢
  obtain ⟨content, hread, h⟩ := bind_eq_ok_iff.mp h
  exact bind_eq_ok_iff.mpr ⟨content, read_of_grows hgrows hfile hread, h⟩

end HybridCompile.FileTree
