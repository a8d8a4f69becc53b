/-!
# HybridCompile — sets of names

A set of names is kept as the strictly increasing list of its members, in the order of their code
points. Whatever walks the set walks it in that one order, and two sets with the same members are
equal, in whatever order and however often their members were given.

* `NameSet.ofList`, `insert`, `contains` — building and asking.
* `NameSet.toList` — the members, in order.
* `NameSet.eq_of_contains` — a set is determined by its members.
-/

namespace HybridCompile

/-! ## Increasing lists -/

/-- Put a name into an increasing list, at its place; a name that is there already is not put
twice. -/
def insertSorted (name : String) : List String → List String
  | [] => [name]
  | other :: rest =>
    if name < other then name :: other :: rest
    else if name = other then other :: rest
    else other :: insertSorted name rest

/-- Inserting adds the name and nothing else. -/
theorem mem_insertSorted {name x : String} {names : List String} :
    x ∈ insertSorted name names ↔ x = name ∨ x ∈ names := by
  induction names with
  | nil => simp [insertSorted]
  | cons other rest ih =>
    unfold insertSorted
    split
    · simp
    · split
      · next h => subst h; simp
      · simp [ih, or_left_comm]

/-- Of two different names one comes before the other. -/
theorem lt_of_not_lt_of_ne {a b : String} (h : ¬a < b) (hne : a ≠ b) : b < a :=
  -- Otherwise each would be at most the other, and they would be equal.
  Decidable.byContradiction fun h' =>
    hne (String.le_antisymm (String.not_lt.1 h') (String.not_lt.1 h))

/-- Inserting keeps a list increasing. -/
theorem pairwise_insertSorted {name : String} {names : List String}
    (h : names.Pairwise (· < ·)) : (insertSorted name names).Pairwise (· < ·) := by
  induction names with
  | nil => simp [insertSorted]
  | cons other rest ih =>
    obtain ⟨hother, hrest⟩ := List.pairwise_cons.1 h
    unfold insertSorted
    split
    · next hlt =>
      refine List.pairwise_cons.2 ⟨fun x hx => ?_, h⟩
      rcases List.mem_cons.1 hx with rfl | hx
      · exact hlt
      · exact String.lt_trans hlt (hother x hx)
    · next hlt =>
      split
      · exact h
      · next hne =>
        refine List.pairwise_cons.2 ⟨fun x hx => ?_, ih hrest⟩
        rcases mem_insertSorted.1 hx with rfl | hx
        · exact lt_of_not_lt_of_ne hlt hne
        · exact hother x hx

/-- An increasing list is determined by its members. -/
theorem eq_of_pairwise_of_mem_iff {xs ys : List String} (hx : xs.Pairwise (· < ·))
    (hy : ys.Pairwise (· < ·)) (h : ∀ name, name ∈ xs ↔ name ∈ ys) : xs = ys := by
  induction xs generalizing ys with
  | nil =>
    cases ys with
    | nil => rfl
    | cons y ys => exact absurd ((h y).2 List.mem_cons_self) List.not_mem_nil
  | cons x xs ih =>
    cases ys with
    | nil => exact absurd ((h x).1 List.mem_cons_self) List.not_mem_nil
    | cons y ys =>
      obtain ⟨hxs, hxrest⟩ := List.pairwise_cons.1 hx
      obtain ⟨hys, hyrest⟩ := List.pairwise_cons.1 hy
      -- Each head is a member of the other list, and nothing comes before a head.
      have hxy : x = y := by
        rcases List.mem_cons.1 ((h x).1 List.mem_cons_self) with hxy | hxy
        · exact hxy
        · rcases List.mem_cons.1 ((h y).2 List.mem_cons_self) with hyx | hyx
          · exact hyx.symm
          · exact absurd (hys x hxy) (String.lt_asymm (hxs y hyx))
      subst hxy
      refine congrArg (x :: ·) (ih hxrest hyrest fun name => ?_)
      constructor <;> intro hmem
      · rcases List.mem_cons.1 ((h name).1 (List.mem_cons_of_mem x hmem)) with rfl | hmem'
        · exact absurd (hxs name hmem) (String.lt_irrefl name)
        · exact hmem'
      · rcases List.mem_cons.1 ((h name).2 (List.mem_cons_of_mem x hmem)) with rfl | hmem'
        · exact absurd (hys name hmem) (String.lt_irrefl name)
        · exact hmem'

/-! ## Sets -/

/-- A set of names, as the increasing list of its members. -/
@[ext] structure NameSet where
  /-- The members, smallest first. -/
  toList : List String
  increasing : toList.Pairwise (· < ·)
  deriving DecidableEq, Repr

namespace NameSet

def empty : NameSet := ⟨[], List.Pairwise.nil⟩

instance : Inhabited NameSet := ⟨empty⟩

/-- Add one name. -/
def insert (set : NameSet) (name : String) : NameSet :=
  ⟨insertSorted name set.toList, pairwise_insertSorted set.increasing⟩

/-- Add every name of a list. -/
def insertAll (set : NameSet) (names : List String) : NameSet :=
  names.foldl insert set

/-- The set of the names of a list. -/
def ofList (names : List String) : NameSet := empty.insertAll names

/-- Whether a name is in the set. -/
def contains (set : NameSet) (name : String) : Bool :=
  set.toList.contains name

theorem contains_iff {set : NameSet} {x : String} : set.contains x = true ↔ x ∈ set.toList :=
  List.contains_iff_mem

@[simp] theorem contains_empty (x : String) : empty.contains x = false := rfl

@[simp] theorem contains_insert (set : NameSet) (name x : String) :
    (set.insert name).contains x = (x == name || set.contains x) := by
  rw [Bool.eq_iff_iff]
  simp [contains, insert, mem_insertSorted]

@[simp] theorem contains_insertAll (set : NameSet) (names : List String) (x : String) :
    (set.insertAll names).contains x = (names.contains x || set.contains x) := by
  induction names generalizing set with
  | nil => simp [insertAll]
  | cons name rest ih =>
    have h : (set.insertAll (name :: rest)) = (set.insert name).insertAll rest := rfl
    rw [h, ih, contains_insert, List.contains_cons]
    cases x == name <;> simp

@[simp] theorem contains_ofList (names : List String) (x : String) :
    (ofList names).contains x = names.contains x := by
  simp [ofList]

/-- A set is determined by its members. -/
theorem eq_of_contains {a b : NameSet} (h : ∀ name, a.contains name = b.contains name) : a = b := by
  have hlist : a.toList = b.toList :=
    eq_of_pairwise_of_mem_iff a.increasing b.increasing fun name => by
      simpa [contains] using Bool.eq_iff_iff.1 (h name)
  cases a
  cases b
  cases hlist
  rfl

end NameSet

end HybridCompile
