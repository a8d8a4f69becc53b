import Mathlib.Data.List.Forall2

/-!
# HybridCompile — how a computation that can fail came out

A computation that ends well did each of its steps well, and one that ends in an error got that
error from one of its steps. Every walk of this library (over the operators of a graph, the regions
of a plan, the tensors of a region) is taken apart by these facts.

* `bind_eq_ok_iff`, `guard_eq_ok_iff`, `mapM_eq_ok_iff` — what a walk that ends well did.
* `IsFirst` — the member at which a walk stops; `mapM_eq_error_iff` says with which error.
* `FirstOf` — which of several checks in a row speaks; `Reports` says it of a computation.
-/

namespace HybridCompile

variable {ε α β : Type}

/-- A result for which `Except.isOk` answers `true` holds a value. Instances use it where `decide`
can see that a run succeeds, but the value is too large to be written down. -/
theorem exists_eq_ok_of_isOk {x : Except ε α} (h : x.isOk = true) : ∃ a, x = .ok a := by
  cases x with
  | error e => cases h
  | ok a => exact ⟨a, rfl⟩

/-- Two steps end well when the first one does and the second one does with what the first gave.
Each `do` block of the library is taken apart by this, one `←` at a time. -/
theorem bind_eq_ok_iff {x : Except ε α} {f : α → Except ε β} {b : β} :
    (x >>= f) = .ok b ↔ ∃ a, x = .ok a ∧ f a = .ok b := by
  constructor
  · intro h
    cases x with
    | error e => cases h
    | ok a => exact ⟨a, rfl, h⟩
  · rintro ⟨a, rfl, h⟩
    exact h

/-- Two steps end in an error when the first one does, or the first one ends well and the second
one, with what it gave, ends in that error. -/
theorem bind_eq_error_iff {x : Except ε α} {f : α → Except ε β} {e : ε} :
    (x >>= f) = .error e ↔ x = .error e ∨ ∃ a, x = .ok a ∧ f a = .error e := by
  constructor
  · intro h
    cases x with
    | error e' =>
      cases h
      exact Or.inl rfl
    | ok a => exact Or.inr ⟨a, rfl, h⟩
  · rintro (rfl | ⟨a, rfl, h⟩)
    · rfl
    · exact h

/-- A guarded step (`if c then throw e` in a `do` block) ends well when the guard lets it go on and
the rest ends well. -/
theorem guard_eq_ok_iff {c : Prop} [Decidable c] {e : ε} {k : PUnit → Except ε β}
    {x : Except ε β} {b : β} :
    (if c then (throw e : Except ε PUnit) >>= k else x) = .ok b ↔ ¬c ∧ x = .ok b := by
  by_cases hc : c
  · rw [if_pos hc]
    exact ⟨fun h => (by cases h), fun h => absurd hc h.1⟩
  · rw [if_neg hc]
    exact ⟨fun h => ⟨hc, h⟩, fun h => h.2⟩

/-- A guarded step ends in the guard's own error where the guard holds, and in an error of the rest
where it does not. -/
theorem guard_eq_error_iff {c : Prop} [Decidable c] {e e' : ε} {k : PUnit → Except ε β}
    {x : Except ε β} :
    (if c then (throw e : Except ε PUnit) >>= k else x) = .error e' ↔
      c ∧ e' = e ∨ ¬c ∧ x = .error e' := by
  by_cases hc : c
  · rw [if_pos hc]
    constructor
    · intro h
      cases h
      exact Or.inl ⟨hc, rfl⟩
    · rintro (⟨-, rfl⟩ | ⟨hn, -⟩)
      · rfl
      · exact absurd hc hn
  · rw [if_neg hc]
    exact ⟨fun h => Or.inr ⟨hc, h⟩, fun h => h.elim (fun h => absurd h.1 hc) And.right⟩

theorem mapError_id (x : Except ε α) : x.mapError id = x := by
  cases x <;> rfl

/-- Translating errors with `Except.mapError` leaves results alone. -/
theorem mapError_eq_ok_iff {ε' : Type} {x : Except ε α} {f : ε → ε'} {a : α} :
    x.mapError f = .ok a ↔ x = .ok a := by
  cases x <;> simp [Except.mapError]

/-- An error after `Except.mapError` is the translation of an error before it. -/
theorem mapError_eq_error_iff {ε' : Type} {x : Except ε α} {f : ε → ε'} {e : ε'} :
    x.mapError f = .error e ↔ ∃ e', x = .error e' ∧ e = f e' := by
  cases x <;> simp [Except.mapError, eq_comm]

/-- A map over a list ends well when each member's step does, and then gives the results in the
order of the members. By induction on the list, with `bind_eq_ok_iff` at each member. -/
theorem mapM_eq_ok_iff {f : α → Except ε β} {xs : List α} {ys : List β} :
    xs.mapM f = .ok ys ↔ List.Forall₂ (fun x y => f x = .ok y) xs ys := by
  induction xs generalizing ys with
  | nil =>
    constructor
    · intro h
      cases h
      exact .nil
    · intro h
      cases h
      rfl
  | cons x rest ih =>
    rw [List.mapM_cons]
    constructor
    · intro h
      obtain ⟨y, hy, h⟩ := bind_eq_ok_iff.mp h
      obtain ⟨ys', hys, h⟩ := bind_eq_ok_iff.mp h
      cases h
      exact .cons hy (ih.mp hys)
    · intro h
      cases h with
      | cons hy hys => exact bind_eq_ok_iff.mpr ⟨_, hy, bind_eq_ok_iff.mpr ⟨_, ih.mpr hys, rfl⟩⟩

/-- Each member of a list has a partner exactly when there is one list of partners for all of them
at once. By induction on the list. -/
theorem exists_forall₂_iff {R : α → β → Prop} {xs : List α} :
    (∃ ys, List.Forall₂ R xs ys) ↔ ∀ x ∈ xs, ∃ y, R x y := by
  induction xs with
  | nil => exact ⟨fun _ => by simp, fun _ => ⟨[], .nil⟩⟩
  | cons x rest ih =>
    rw [List.forall_mem_cons, ← ih]
    constructor
    · rintro ⟨_, _ | ⟨hx, hrest⟩⟩
      exact ⟨⟨_, hx⟩, _, hrest⟩
    · rintro ⟨⟨y, hy⟩, ys, hys⟩
      exact ⟨y :: ys, .cons hy hys⟩

/-- What a map over a list gives in place `k` is what the step of the member in place `k` gives. The
induction is on the `List.Forall₂` that `mapM_eq_ok_iff` makes of the map, for all places. -/
theorem getElem?_mapM_iff {f : α → Except ε β} {xs : List α} {ys : List β} (h : xs.mapM f = .ok ys)
    {k : Nat} {y : β} : ys[k]? = some y ↔ ∃ x, xs[k]? = some x ∧ f x = .ok y := by
  have hsteps := mapM_eq_ok_iff.mp h
  clear h
  induction hsteps generalizing k with
  | nil => simp
  | cons hfirst _ ih =>
    cases k with
    | zero => simp [hfirst]
    | succ k => simpa using ih

/-! ## The first member

A walk over a list that looks for something stops at the first member that has it. -/

/-- The member `x` has the property `P`, and no member ahead of it does. The list is split at `x`,
so that a walk that stops there is described by what it has passed. -/
def IsFirst (P : α → Prop) (xs : List α) (x : α) : Prop :=
  ∃ ahead behind, xs = ahead ++ x :: behind ∧ (∀ y ∈ ahead, ¬P y) ∧ P x

section IsFirst

variable {P : α → Prop} {xs : List α} {x y : α}

theorem IsFirst.mem (h : IsFirst P xs x) : x ∈ xs := by
  obtain ⟨ahead, behind, rfl, -, -⟩ := h
  simp

theorem IsFirst.holds (h : IsFirst P xs x) : P x := by
  obtain ⟨_, _, -, -, hx⟩ := h
  exact hx

theorem not_isFirst_nil : ¬IsFirst P [] x := fun h => List.not_mem_nil h.mem

/-- The first member of a longer list is its head, if that has the property, and else the first one
of the tail. The walks of the library step through a list by this. -/
theorem isFirst_cons_iff : IsFirst P (y :: xs) x ↔ P y ∧ x = y ∨ ¬P y ∧ IsFirst P xs x := by
  constructor
  · rintro ⟨ahead, behind, hsplit, hahead, hx⟩
    cases ahead with
    | nil =>
      cases hsplit
      exact Or.inl ⟨hx, rfl⟩
    | cons z ahead =>
      cases hsplit
      obtain ⟨hz, hrest⟩ := List.forall_mem_cons.mp hahead
      exact Or.inr ⟨hz, ahead, behind, rfl, hrest, hx⟩
  · rintro (⟨hy, rfl⟩ | ⟨hy, ahead, behind, rfl, hahead, hx⟩)
    · exact ⟨[], xs, rfl, by simp, hy⟩
    · exact ⟨y :: ahead, behind, rfl, List.forall_mem_cons.mpr ⟨hy, hahead⟩, hx⟩

/-- Where some member has the property `P`, one of them is the first. By induction on the list, by
whether its head has the property. -/
theorem exists_isFirst (h : ∃ x ∈ xs, P x) : ∃ x, IsFirst P xs x := by
  induction xs with
  | nil => simp at h
  | cons y rest ih =>
    by_cases hy : P y
    · exact ⟨y, isFirst_cons_iff.mpr (Or.inl ⟨hy, rfl⟩)⟩
    · obtain ⟨x, hx, hP⟩ := h
      have hrest : x ∈ rest := (List.mem_cons.mp hx).resolve_left fun heq => hy (heq ▸ hP)
      obtain ⟨first, hfirst⟩ := ih ⟨x, hrest, hP⟩
      exact ⟨first, isFirst_cons_iff.mpr (Or.inr ⟨hy, hfirst⟩)⟩

/-- What `List.find?` finds is the member that `IsFirst` speaks of. -/
theorem find?_eq_some_iff_isFirst {p : α → Bool} :
    xs.find? p = some x ↔ IsFirst (fun y => p y = true) xs x := by
  rw [List.find?_eq_some_iff_append]
  constructor
  · rintro ⟨hx, ahead, behind, hsplit, hahead⟩
    exact ⟨ahead, behind, hsplit, fun y hy => by simpa using hahead y hy, hx⟩
  · rintro ⟨ahead, behind, hsplit, hahead, hx⟩
    exact ⟨hx, ahead, behind, hsplit, fun y hy => by simpa using hahead y hy⟩

/-- A map over a list ends in the error of the first member whose step fails. By induction on the
list: a head that fails is that member, and a head that does not lets `isFirst_cons_iff` go on. -/
theorem mapM_eq_error_iff {f : α → Except ε β} {e : ε} :
    xs.mapM f = .error e ↔
      ∃ x, IsFirst (fun y => ∃ e, f y = .error e) xs x ∧ f x = .error e := by
  induction xs with
  | nil => exact ⟨fun h => (by cases h), fun ⟨_, h, _⟩ => absurd h not_isFirst_nil⟩
  | cons y rest ih =>
    rw [List.mapM_cons]
    simp only [isFirst_cons_iff]
    cases hy : f y with
    | error e' =>
      constructor
      · intro h
        cases h
        exact ⟨y, Or.inl ⟨⟨e, rfl⟩, rfl⟩, hy⟩
      · rintro ⟨x, ⟨-, rfl⟩ | ⟨hnone, -⟩, hx⟩
        · cases hy.symm.trans hx
          rfl
        · exact absurd ⟨e', rfl⟩ hnone
    | ok b =>
      have hrest : (Except.ok b >>= fun b => rest.mapM f >>= fun bs => pure (b :: bs)) =
          .error e ↔ rest.mapM f = .error e := by
        cases rest.mapM f with
        | error e' => exact ⟨fun h => h ▸ rfl, fun h => h ▸ rfl⟩
        | ok bs => exact ⟨fun h => (by cases h), fun h => (by cases h)⟩
      rw [hrest, ih]
      simp

end IsFirst

/-! ## The first check

A computation that checks one thing after another ends in the error of the first check that finds
something. -/

/-- The first of some checks that finds an error finds `e`. A check is a predicate on errors, and
says nothing of errors where it has nothing to find. -/
inductive FirstOf : List (ε → Prop) → ε → Prop where
  | here {check : ε → Prop} {checks : List (ε → Prop)} {e : ε} (h : check e) :
      FirstOf (check :: checks) e
  | later {check : ε → Prop} {checks : List (ε → Prop)} {e : ε} (hnone : ∀ e', ¬check e')
      (h : FirstOf checks e) : FirstOf (check :: checks) e

/-- A computation ends in just the errors that `check` finds; so it ends well exactly when there is
none. -/
def Reports (x : Except ε α) (check : ε → Prop) : Prop := ∀ e, x = .error e ↔ check e

section Reports

variable {x : Except ε α} {check check' : ε → Prop} {checks checks' : List (ε → Prop)} {e : ε}

theorem firstOf_nil_iff : FirstOf ([] : List (ε → Prop)) e ↔ False :=
  ⟨fun h => (by cases h), False.elim⟩

/-- Of several checks the first one speaks if it finds something, and else `FirstOf` goes on with
the others. -/
theorem firstOf_cons_iff :
    FirstOf (check :: checks) e ↔ check e ∨ (∀ e', ¬check e') ∧ FirstOf checks e := by
  constructor
  · rintro (h | ⟨hnone, h⟩)
    · exact Or.inl h
    · exact Or.inr ⟨hnone, h⟩
  · rintro (h | ⟨hnone, h⟩)
    · exact .here h
    · exact .later hnone h

/-- Checks that find the same errors, one by one, have the same first finding. By induction along
the two lists of checks. -/
theorem FirstOf.congr (h : List.Forall₂ (fun c c' => ∀ e, c e ↔ c' e) checks checks') :
    FirstOf checks e ↔ FirstOf checks' e := by
  induction h with
  | nil => exact Iff.rfl
  | cons hfirst _ ih => simp only [firstOf_cons_iff, hfirst, ih]

theorem Reports.congr (hx : Reports x check) (h : ∀ e, check e ↔ check' e) : Reports x check' :=
  fun e => (hx e).trans (h e)

theorem Reports.ok (a : α) : Reports (.ok a) (FirstOf ([] : List (ε → Prop))) :=
  fun _ => ⟨fun h => (by cases h), fun h => (by cases h)⟩

/-- A single step is a row of one check. -/
theorem Reports.single (hx : Reports x check) : Reports x (FirstOf [check]) :=
  hx.congr fun e => by simp [firstOf_cons_iff, firstOf_nil_iff]

/-- A step that finds no error lets the later ones speak: the checks of `x >>= f` are that of `x`,
and then those of `f` with whatever `x` gave. -/
theorem Reports.bind {f : α → Except ε β} (hx : Reports x check)
    (hf : ∀ a, x = .ok a → Reports (f a) (FirstOf checks)) :
    Reports (x >>= f) (FirstOf (check :: checks)) := by
  intro e
  rw [bind_eq_error_iff, firstOf_cons_iff, hx e]
  refine or_congr_right ?_
  cases x with
  | error e' =>
    have hfound := (hx e').mp rfl
    exact ⟨fun ⟨a, ha, _⟩ => (by cases ha), fun ⟨hnone, _⟩ => absurd hfound (hnone e')⟩
  | ok a =>
    have hnone : ∀ e', ¬check e' := fun e' h => by cases (hx e').mpr h
    rw [← hf a rfl e]
    exact ⟨fun ⟨a', ha, h⟩ => ⟨hnone, Except.ok.inj ha ▸ h⟩, fun ⟨_, h⟩ => ⟨a, rfl, h⟩⟩

/-- A guard in front of a computation is one more check ahead of its own. -/
theorem Reports.guard {c : Prop} [Decidable c] {e : ε} {k : PUnit → Except ε α}
    (hx : ¬c → Reports x (FirstOf checks)) :
    Reports (if c then (throw e : Except ε PUnit) >>= k else x)
      (FirstOf ((fun e' => c ∧ e' = e) :: checks)) := by
  intro e'
  rw [guard_eq_error_iff, firstOf_cons_iff]
  refine or_congr_right ?_
  by_cases hc : c
  · exact ⟨fun h => absurd hc h.1, fun h => absurd ⟨hc, rfl⟩ (h.1 e)⟩
  · simp [hc, hx hc e']

end Reports

/-- A map over a list depends on what its step does with the members alone. By induction on the
list. -/
theorem mapM_congr_of_mem {f f' : α → Except ε β} {xs : List α} (h : ∀ x ∈ xs, f x = f' x) :
    xs.mapM f = xs.mapM f' := by
  induction xs with
  | nil => rfl
  | cons x rest ih =>
    rw [List.mapM_cons, List.mapM_cons, h x List.mem_cons_self,
      ih fun y hy => h y (List.mem_cons_of_mem x hy)]

/-- A map over a list whose members' steps all end well ends well itself. By induction on the list.
-/
theorem exists_mapM_eq_ok {f : α → Except ε β} {xs : List α}
    (h : ∀ x ∈ xs, ∃ y, f x = .ok y) : ∃ ys, xs.mapM f = .ok ys := by
  induction xs with
  | nil => exact ⟨[], rfl⟩
  | cons x rest ih =>
    obtain ⟨y, hy⟩ := h x List.mem_cons_self
    obtain ⟨ys, hys⟩ := ih fun z hz => h z (List.mem_cons_of_mem x hz)
    exact ⟨y :: ys, mapM_eq_ok_iff.mpr (.cons hy (mapM_eq_ok_iff.mp hys))⟩

theorem exists_of_mapM_eq_error {f : α → Except ε β} {xs : List α} {e : ε}
    (h : xs.mapM f = .error e) : ∃ x ∈ xs, f x = .error e := by
  obtain ⟨x, hfirst, hx⟩ := mapM_eq_error_iff.mp h
  exact ⟨x, hfirst.mem, hx⟩

/-- A reader of list members reads the list: where `f` reads each member of `xs` as its partner in
`ys`, all of them are read as `ys`. By induction along both lists. -/
theorem mapM_eq_some_of_forall₂ {f : α → Option β} {xs : List α} {ys : List β}
    (h : List.Forall₂ (fun x y => f x = some y) xs ys) : xs.mapM f = some ys := by
  induction h with
  | nil => rfl
  | cons hx _ ih =>
    rw [List.mapM_cons, hx, ih]
    rfl

/-- A reader `f` of what `g` writes reads back a list that `g` wrote member by member. -/
theorem mapM_map_eq_some {f : β → Option α} {g : α → β} (h : ∀ x, f (g x) = some x)
    (xs : List α) : (xs.map g).mapM f = some xs := by
  refine mapM_eq_some_of_forall₂ ?_
  rw [List.forall₂_map_left_iff, List.forall₂_same]
  exact fun x _ => h x

end HybridCompile
