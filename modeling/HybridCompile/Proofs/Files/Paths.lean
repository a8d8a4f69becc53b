import HybridCompile.Files.Tree
import Mathlib.Data.List.Basic

/-!
# HybridCompile — where paths lead

A path that can be followed leads to its target, whatever files there are. The names in one directory
have targets of their own.

* `follow_eq_ok`, `locate_eq_ok` — a path that is followed to its end.
* `locate_mono` — more directories take no path away.
* `exists_target_joinPath`, `target_joinPath_inj` — names in a directory.
-/

namespace HybridCompile

namespace FileTree

variable {t t' : FileTree} {here l : Location} {ps qs : List String} {path : String}

/-! ## Following -/

/-- One name of a path: it is looked up in a directory that is there, is not too long, and the rest
is followed from where it leads. -/
theorem follow_cons_eq_ok {p : String} :
    t.follow here (p :: ps) = .ok l ↔
      t.isDir here = true ∧ p.utf8ByteSize ≤ maxName ∧ t.follow (enter here p) ps = .ok l := by
  rw [follow]
  cases hdir : t.isDir here <;> by_cases hname : maxName < p.utf8ByteSize <;>
    simp [hname, Nat.not_le_of_lt, Nat.le_of_not_lt]

/-- A path that can be followed leads to its target. Induction on the names. -/
theorem follow_eq_ok (h : t.follow here ps = .ok l) : l = ps.foldl enter here := by
  induction ps generalizing here with
  | nil => exact (Except.ok.inj h).symm
  | cons p ps ih => exact ih (follow_cons_eq_ok.mp h).2.2

/-- A path in two parts is followed part by part. Induction on the names of the first. -/
theorem follow_append_eq_ok :
    t.follow here (ps ++ qs) = .ok l ↔
      ∃ l₀, t.follow here ps = .ok l₀ ∧ t.follow l₀ qs = .ok l := by
  induction ps generalizing here with
  | nil => exact ⟨fun h => ⟨here, rfl, h⟩, fun ⟨_, h₀, h⟩ => Except.ok.inj h₀ ▸ h⟩
  | cons p ps ih =>
    rw [List.cons_append, follow_cons_eq_ok, ih]
    constructor
    · rintro ⟨hdir, hname, l₀, h₀, h⟩
      exact ⟨l₀, follow_cons_eq_ok.mpr ⟨hdir, hname, h₀⟩, h⟩
    · rintro ⟨l₀, h₀, h⟩
      obtain ⟨hdir, hname, h₀⟩ := follow_cons_eq_ok.mp h₀
      exact ⟨hdir, hname, l₀, h₀, h⟩

/-- The one tree has the directories of the other, and maybe more. -/
def Grows (t t' : FileTree) : Prop := ∀ l ∈ t.dirs, l ∈ t'.dirs

theorem Grows.rfl (t : FileTree) : t.Grows t := fun _ h => h

theorem Grows.trans {t'' : FileTree} (h : t.Grows t') (h' : t'.Grows t'') : t.Grows t'' :=
  fun l hl => h' l (h l hl)

theorem isDir_mono (h : t.Grows t') (hdir : t.isDir l = true) : t'.isDir l = true := by
  unfold isDir at hdir ⊢
  simp only [Bool.or_eq_true, List.contains_iff_mem] at hdir ⊢
  exact hdir.imp_right (h l)

/-- More directories take no path away. Induction on the names. -/
theorem follow_mono (h : t.Grows t') (hfollow : t.follow here ps = .ok l) :
    t'.follow here ps = .ok l := by
  induction ps generalizing here with
  | nil => exact hfollow
  | cons p ps ih =>
    obtain ⟨hdir, hname, hrest⟩ := follow_cons_eq_ok.mp hfollow
    exact follow_cons_eq_ok.mpr ⟨isDir_mono h hdir, hname, ih hrest⟩

theorem locate_eq_ok_iff :
    t.locate path = .ok l ↔ checkPath path = .ok () ∧ t.follow (start path) (parts path) = .ok l := by
  unfold locate
  cases checkPath path with
  | error e => exact ⟨fun h => (by cases h), fun h => (by cases h.1)⟩
  | ok => exact ⟨fun h => ⟨rfl, h⟩, fun h => h.2⟩

theorem locate_eq_ok (h : t.locate path = .ok l) : l = target path :=
  follow_eq_ok (locate_eq_ok_iff.mp h).2

theorem locate_mono (h : t.Grows t') (hlocate : t.locate path = .ok l) : t'.locate path = .ok l := by
  obtain ⟨hcheck, hfollow⟩ := locate_eq_ok_iff.mp hlocate
  exact locate_eq_ok_iff.mpr ⟨hcheck, follow_mono h hfollow⟩

/-! ## Parts and names -/

/-- Empty names lead nowhere else, so they may be left out of a target. Induction on the names. -/
theorem foldl_enter_filter (ps : List String) (here : Location) :
    (ps.filter (· ≠ "")).foldl enter here = ps.foldl enter here := by
  induction ps generalizing here with
  | nil => rfl
  | cons p ps ih =>
    by_cases hp : p = ""
    · subst hp
      exact ih here
    · rw [List.filter_cons_of_pos (by simpa using hp)]
      exact ih (enter here p)

theorem foldl_names (path : String) : (names path).foldl enter (start path) = target path :=
  foldl_enter_filter (parts path) (start path)

/-- What stands between two slashes beside each other does not matter where a name follows.
Induction on the names; an empty name asks for a directory, which the name behind it asks for too.
-/
theorem follow_filter (hlast : ps.getLast? ≠ some "") :
    t.follow here (ps.filter (· ≠ "")) = .ok l → t.follow here ps = .ok l := by
  induction ps generalizing here with
  | nil => exact id
  | cons p ps ih =>
    have hrest : ps.getLast? ≠ some "" := by
      cases ps with
      | nil => exact fun h => (by cases h)
      | cons q qs => rwa [List.getLast?_cons_cons] at hlast
    by_cases hp : p = ""
    · subst hp
      intro h
      have hfollow : t.follow here ps = .ok l := ih hrest h
      have hdir : t.isDir here = true := by
        cases ps with
        | nil => exact absurd rfl hlast
        | cons q qs => exact (follow_cons_eq_ok.mp hfollow).1
      exact follow_cons_eq_ok.mpr ⟨hdir, Nat.zero_le _, hfollow⟩
    · rw [List.filter_cons_of_pos (by simpa using hp)]
      intro h
      obtain ⟨hdir, hname, hfollow⟩ := follow_cons_eq_ok.mp h
      exact follow_cons_eq_ok.mpr ⟨hdir, hname, ih hrest hfollow⟩

/-- Characters that do not end in a slash end in a part that is not empty. Induction on the
characters. -/
theorem getLast?_splitOn {cs : List Char} (hne : cs ≠ []) (hlast : cs.getLast? ≠ some '/') :
    (cs.splitOn '/').getLast? ≠ some [] := by
  induction cs with
  | nil => exact absurd rfl hne
  | cons c cs ih =>
    rw [List.splitOn_cons_eq_if_modifyHead]
    cases cs with
    | nil =>
      have hc : c ≠ '/' := fun h => hlast (congrArg some h)
      simp [hc]
    | cons d ds =>
      have hrest := ih (List.cons_ne_nil d ds) (by rwa [List.getLast?_cons_cons] at hlast)
      cases hsplit : (d :: ds).splitOn '/' with
      | nil => exact absurd hsplit (List.splitOn_ne_nil _ _)
      | cons first rest =>
        rw [hsplit] at hrest
        split
        · rwa [List.getLast?_cons_cons]
        · cases rest with
          | nil => simp
          | cons second rest => simpa using hrest

/-- A path that does not end in a slash ends in a name. -/
theorem getLast?_parts (hne : path ≠ "") (hlast : path.toList.getLast? ≠ some '/') :
    (parts path).getLast? ≠ some "" := by
  have hsplit := getLast?_splitOn (by simpa using hne) hlast
  unfold parts
  rw [List.getLast?_map]
  cases hfound : (path.toList.splitOn '/').getLast? with
  | none => exact fun h => (by cases h)
  | some cs =>
    intro h
    refine hsplit (hfound.trans (congrArg some ?_))
    simpa using h

/-! ## Names in a directory -/

/-- A text that names something in a directory: no part of a path means anything else. -/
structure IsName (name : String) : Prop where
  slash_notMem : '/' ∉ name.toList
  ne_empty : name ≠ ""
  ne_dot : name ≠ "."
  ne_dots : name ≠ ".."

theorem IsName.enter {name : String} (h : IsName name) (here : Location) :
    FileTree.enter here name = here ++ [name] := by
  simp [FileTree.enter, h.ne_empty, h.ne_dot, h.ne_dots]

/-- A name joined to a directory stands behind a slash, whatever the name. -/
theorem exists_toList_joinPath (dir : String) :
    ∃ cs, ∀ name, (joinPath dir name).toList = cs ++ '/' :: name.toList := by
  unfold joinPath
  by_cases hslash : dir.toList.getLast? = some '/'
  · obtain ⟨cs, hcs⟩ := List.getLast?_eq_some_iff.mp hslash
    refine ⟨cs, fun name => ?_⟩
    rw [if_pos hslash, String.toList_append, hcs, List.append_assoc]
    rfl
  · refine ⟨dir.toList, fun name => ?_⟩
    rw [if_neg hslash, String.toList_append, String.toList_append, List.append_assoc]
    rfl

/-- Names in one directory lead to one place, and from there by themselves. -/
theorem exists_target_joinPath (dir : String) :
    ∃ base, ∀ name, IsName name → target (joinPath dir name) = base ++ [name] := by
  obtain ⟨cs, hcs⟩ := exists_toList_joinPath dir
  refine ⟨((cs.splitOn '/').map String.ofList).foldl enter
    (if (cs ++ ['/']).head? = some '/' then ["/"] else []), fun name hname => ?_⟩
  have hstart : (cs ++ '/' :: name.toList).head? = (cs ++ ['/']).head? := by
    cases cs <;> rfl
  have hparts : parts (joinPath dir name) = (cs.splitOn '/').map String.ofList ++ [name] := by
    unfold parts
    rw [hcs, List.splitOn_append_cons_self, List.splitOn_eq_singleton hname.slash_notMem,
      List.map_append, List.map_singleton, String.ofList_toList]
  rw [target, hparts, List.foldl_append, List.foldl_cons, List.foldl_nil, hname.enter, start, hcs,
    hstart]

theorem target_joinPath_inj {dir name name' : String} (hname : IsName name) (hname' : IsName name')
    (h : target (joinPath dir name) = target (joinPath dir name')) : name = name' := by
  obtain ⟨base, hbase⟩ := exists_target_joinPath dir
  rw [hbase name hname, hbase name' hname'] at h
  exact List.singleton_inj.mp (List.append_cancel_left h)

end FileTree

end HybridCompile
