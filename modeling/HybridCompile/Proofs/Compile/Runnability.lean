import HybridCompile.Proofs.Compile.Wiring
import Mathlib.Data.Set.Basic

/-!
# HybridCompile — what the check of an executable decides

An executable is run segment by segment: each needs the tensors that it reads, and what it makes is
there from then on. The check never runs anything. On any executable, however it was put together,
it accepts exactly what can be run from the graph inputs to the graph outputs, and of all that is
wrong with another it reports what comes first.

* `Segment.Executes`, `ExecutesAll`, `Executable.Runs` — running, as far as tensors are concerned.
* `Segment.FaultAt`, `Executable.FirstFault` — what comes first.
* `checkSegments_eq_error_iff` — where the walk over the segments stops.
* `Executable.check_decides_runnability` — the whole.
-/

namespace HybridCompile

/-! ## Running -/

/-- A segment is executed where everything is there that it reads; what it makes is there
afterwards. -/
inductive Segment.Executes (s : Segment) (there : Set String) : Set String → Prop where
  | intro (reads : ∀ t ∈ s.inputs, t ∈ there) : s.Executes there ({t | t ∈ s.outputs} ∪ there)

/-- Segments are executed one after another. -/
inductive ExecutesAll : Set String → List Segment → Set String → Prop where
  | nil (there : Set String) : ExecutesAll there [] there
  | cons {there next last : Set String} {s : Segment} {rest : List Segment}
      (first : s.Executes there next) (others : ExecutesAll next rest last) :
      ExecutesAll there (s :: rest) last

/-- All segments can be executed in order from the graph inputs, and every graph output is there
then. -/
def Executable.Runs (e : Executable) : Prop :=
  ∃ last, ExecutesAll {t | t ∈ e.inputs} e.segments last ∧ ∀ t ∈ e.outputs, t ∈ last

/-- A segment carries its place as its index, and it has an engine exactly when it is for the
accelerator. -/
@[mk_iff] structure Segment.FitsAt (s : Segment) (place : Nat) : Prop where
  region_eq : s.region = place
  isEngine_iff : s.artifact.isEngine = true ↔ s.target = .accelerator

/-! ## What comes first -/

/-- What is wrong with the segment at a place, where `there` is there: its index is looked at first,
then its artifact, then the tensors that it reads, in their order. -/
@[mk_iff] inductive Segment.FaultAt (s : Segment) (place : Nat) (there : Set String) :
    ExecutableFault → Prop where
  | index (h : s.region ≠ place) : s.FaultAt place there (.misplaced place s.region)
  | artifact (hindex : s.region = place)
      (h : ¬(s.artifact.isEngine = true ↔ s.target = .accelerator)) :
      s.FaultAt place there (.wrongArtifact place s.target)
  | input {t : String} (hfits : s.FitsAt place) (hfirst : IsFirst (· ∉ there) s.inputs t) :
      s.FaultAt place there (.missingInput place t)

/-- What is wrong with the first segment with which something is wrong; the segments before it have
been executed. Outputs come after all segments. -/
inductive Executable.FirstFault (e : Executable) : ExecutableFault → Prop where
  | segment {earlier later : List Segment} {s : Segment} {there : Set String}
      {fault : ExecutableFault} (hsplit : e.segments = earlier ++ s :: later)
      (hfits : ∀ (k : Nat) (s : Segment), earlier[k]? = some s → s.FitsAt k)
      (hexecuted : ExecutesAll {t | t ∈ e.inputs} earlier there)
      (hfault : s.FaultAt earlier.length there fault) : e.FirstFault fault
  | output {last : Set String} {t : String}
      (hfits : ∀ (k : Nat) (s : Segment), e.segments[k]? = some s → s.FitsAt k)
      (hexecuted : ExecutesAll {t | t ∈ e.inputs} e.segments last)
      (hfirst : IsFirst (· ∉ last) e.outputs t) : e.FirstFault (.missingOutput t)

/-! ## The walk -/

/-- Segments that fit, where the first of them stands at `place`. -/
def FitFrom (place : Nat) (segments : List Segment) : Prop :=
  ∀ (k : Nat) (s : Segment), segments[k]? = some s → s.FitsAt (place + k)

section Walk

variable {place : Nat} {available available' : List String} {segments rest : List Segment}
  {s : Segment} {last : Set String} {fault : ExecutableFault}

/-- The first segment fits its place, and the others fit from the next one on. -/
theorem fitFrom_cons_iff :
    FitFrom place (s :: rest) ↔ s.FitsAt place ∧ FitFrom (place + 1) rest := by
  constructor
  · intro h
    refine ⟨h 0 s rfl, fun k s' hs' => ?_⟩
    have hnext := h (k + 1) s' hs'
    rwa [← Nat.add_assoc, Nat.add_right_comm] at hnext
  · rintro ⟨hs, hrest⟩ k s' hs'
    cases k with
    | zero =>
      cases hs'
      exact hs
    | succ k =>
      have hnext := hrest k s' hs'
      rwa [Nat.add_right_comm, Nat.add_assoc] at hnext

theorem isEngine_eq_iff :
    s.artifact.isEngine = (s.target == .accelerator) ↔
      (s.artifact.isEngine = true ↔ s.target = .accelerator) := by
  rw [Bool.eq_iff_iff, beq_iff_eq]

theorem setOf_mem_append (made available : List String) :
    {t | t ∈ made ++ available} = ({t | t ∈ made} ∪ {t | t ∈ available} : Set String) := by
  ext t
  simp

/-- A walk that ends well has executed its segments, with the list of tensors as the set. Induction
on the segments. -/
theorem executesAll_of_checkSegments
    (h : Executable.checkSegments place available segments = .ok available') :
    FitFrom place segments ∧
      ExecutesAll {t | t ∈ available} segments {t | t ∈ available'} := by
  induction segments generalizing place available with
  | nil =>
    cases h
    exact ⟨fun k s hs => by simp at hs, .nil _⟩
  | cons s rest ih =>
    obtain ⟨hregion, hkind, hinputs, hwalk⟩ := checkSegments_cons_eq_ok_iff.mp h
    obtain ⟨hfits, hexecutes⟩ := ih hwalk
    rw [setOf_mem_append] at hexecutes
    exact ⟨fitFrom_cons_iff.mpr ⟨⟨hregion, isEngine_eq_iff.mp hkind⟩, hfits⟩,
      .cons ⟨hinputs⟩ hexecutes⟩

/-- Segments that can be executed are walked over. Induction on the segments. -/
theorem exists_checkSegments_eq_ok (hfits : FitFrom place segments)
    (h : ExecutesAll {t | t ∈ available} segments last) :
    ∃ available', Executable.checkSegments place available segments = .ok available' ∧
      {t | t ∈ available'} = last := by
  induction segments generalizing place available with
  | nil =>
    cases h
    exact ⟨available, rfl, rfl⟩
  | cons s rest ih =>
    obtain ⟨hfirst, hrest⟩ := fitFrom_cons_iff.mp hfits
    obtain _ | ⟨⟨hreads⟩, hothers⟩ := h
    rw [← setOf_mem_append] at hothers
    obtain ⟨available', hwalk, hlast⟩ := ih hrest hothers
    exact ⟨available', checkSegments_cons_eq_ok_iff.mpr
      ⟨hfirst.region_eq, isEngine_eq_iff.mpr hfirst.isEngine_iff, hreads, hwalk⟩, hlast⟩

/-- Looking for tensors stops at the first that is not there, with `find?` for the search and
`IsFirst` for what it finds. -/
theorem find_missing_eq_error_iff {β : Type} {tensors : List String}
    {missing : String → ExecutableFault} {x : Except ExecutableFault β} :
    (match tensors.find? fun t => !available.contains t with
      | some t => throw (missing t)
      | none => x) = .error fault ↔
      (∃ t, IsFirst (· ∉ {t | t ∈ available}) tensors t ∧ fault = missing t) ∨
        (∀ t ∈ tensors, t ∈ available) ∧ x = .error fault := by
  cases hfind : tensors.find? fun t => !available.contains t with
  | none =>
    have hall : ∀ t ∈ tensors, t ∈ available := by simpa using hfind
    constructor
    · intro h
      exact Or.inr ⟨hall, h⟩
    · rintro (⟨t, hfirst, -⟩ | ⟨-, h⟩)
      · exact absurd (hall t hfirst.mem) hfirst.holds
      · exact h
  | some t =>
    have hiff : ∀ u, IsFirst (· ∉ {t | t ∈ available}) tensors u ↔ some t = some u := by
      intro u
      rw [← hfind, find?_eq_some_iff_isFirst]
      simp
    constructor
    · intro h
      cases h
      exact Or.inl ⟨t, (hiff t).mpr rfl, rfl⟩
    · rintro (⟨u, hfirst, rfl⟩ | ⟨hall, -⟩)
      · cases (hiff u).mp hfirst
        rfl
      · have hfirst := (hiff t).mpr rfl
        exact absurd (hall t hfirst.mem) hfirst.holds

/-- One segment stops the walk, or the walk gets past it and stops later. -/
theorem checkSegments_cons_eq_error_iff :
    Executable.checkSegments place available (s :: rest) = .error fault ↔
      s.FaultAt place {t | t ∈ available} fault ∨
        s.FitsAt place ∧ (∀ t ∈ s.inputs, t ∈ available) ∧
          Executable.checkSegments (place + 1) (s.outputs ++ available) rest = .error fault := by
  rw [Executable.checkSegments, Segment.faultAt_iff, Segment.fitsAt_iff]
  simp only [guard_eq_error_iff, ne_eq, not_not, isEngine_eq_iff]
  have hinputs := @find_missing_eq_error_iff available fault _ s.inputs (.missingInput place)
    (Executable.checkSegments (place + 1) (s.outputs ++ available) rest)
  by_cases hindex : s.region = place
  · by_cases hkind : s.artifact.isEngine = true ↔ s.target = .accelerator
    · simp only [hindex, hkind, not_true_eq_false, false_and, true_and, false_or]
      exact hinputs
    · simp [hindex, hkind]
  · simp [hindex]

/-- The walk stops at the first segment with which something is wrong, after it has executed those
before. Induction on the segments, each by `checkSegments_cons_eq_error_iff`. -/
theorem checkSegments_eq_error_iff :
    Executable.checkSegments place available segments = .error fault ↔
      ∃ earlier s later there, segments = earlier ++ s :: later ∧ FitFrom place earlier ∧
        ExecutesAll {t | t ∈ available} earlier there ∧
        s.FaultAt (place + earlier.length) there fault := by
  induction segments generalizing place available with
  | nil =>
    constructor
    · intro h
      cases h
    · rintro ⟨earlier, s, later, there, hsplit, -⟩
      simp at hsplit
  | cons first rest ih =>
    rw [checkSegments_cons_eq_error_iff, ih, setOf_mem_append]
    constructor
    · rintro (hfault | ⟨hfits, hreads, earlier, s, later, there, rfl, hrest, hexecutes, hfault⟩)
      · exact ⟨[], first, rest, _, rfl, fun k s hs => by simp at hs, .nil _, hfault⟩
      · refine ⟨first :: earlier, s, later, there, rfl, fitFrom_cons_iff.mpr ⟨hfits, hrest⟩,
          .cons ⟨hreads⟩ hexecutes, ?_⟩
        rwa [List.length_cons, ← Nat.add_assoc, Nat.add_right_comm]
    · rintro ⟨earlier, s, later, there, hsplit, hfits, hexecutes, hfault⟩
      cases earlier with
      | nil =>
        cases hsplit
        cases hexecutes
        exact Or.inl hfault
      | cons s' earlier =>
        cases hsplit
        obtain ⟨hfirst, hrest⟩ := fitFrom_cons_iff.mp hfits
        obtain _ | ⟨⟨hreads⟩, hothers⟩ := hexecutes
        rw [List.length_cons, ← Nat.add_assoc, Nat.add_right_comm] at hfault
        exact Or.inr ⟨hfirst, hreads, earlier, s, later, there, rfl, hrest, hothers, hfault⟩

end Walk

/-! ## The whole -/

section Whole

variable {e : Executable} {fault : ExecutableFault}

theorem fitFrom_zero_iff {segments : List Segment} :
    FitFrom 0 segments ↔ ∀ (k : Nat) (s : Segment), segments[k]? = some s → s.FitsAt k := by
  simp only [FitFrom, Nat.zero_add]

/-- The check looks at the graph outputs when the walk has come to its end. -/
theorem check_eq_error_iff :
    e.check = .error fault ↔
      Executable.checkSegments 0 e.inputs e.segments = .error fault ∨
        ∃ available, Executable.checkSegments 0 e.inputs e.segments = .ok available ∧
          ∃ t, IsFirst (· ∉ {t | t ∈ available}) e.outputs t ∧ fault = .missingOutput t := by
  unfold Executable.check
  rw [bind_eq_error_iff]
  refine or_congr Iff.rfl (exists_congr fun available => and_congr_right fun _ => ?_)
  refine find_missing_eq_error_iff.trans ?_
  simp [pure, Except.pure]

/-- For every executable: it passes exactly when its segments fit their places and it can be run
from the graph inputs to the graph outputs, and otherwise the check reports what is wrong first. -/
theorem Executable.check_decides_runnability (e : Executable) :
    (e.check = .ok () ↔
      (∀ (k : Nat) (s : Segment), e.segments[k]? = some s → s.FitsAt k) ∧ e.Runs) ∧
      ∀ fault, e.check = .error fault ↔ e.FirstFault fault := by
  constructor
  · rw [check_eq_ok_iff, ← fitFrom_zero_iff]
    constructor
    · rintro ⟨available, hwalk, houtputs⟩
      obtain ⟨hfits, hexecutes⟩ := executesAll_of_checkSegments hwalk
      exact ⟨hfits, _, hexecutes, houtputs⟩
    · rintro ⟨hfits, last, hexecutes, houtputs⟩
      obtain ⟨available, hwalk, rfl⟩ := exists_checkSegments_eq_ok hfits hexecutes
      exact ⟨available, hwalk, houtputs⟩
  · intro fault
    rw [check_eq_error_iff, checkSegments_eq_error_iff]
    simp only [Nat.zero_add, fitFrom_zero_iff]
    constructor
    · rintro (⟨earlier, s, later, there, hsplit, hfits, hexecutes, hfault⟩ |
        ⟨available, hwalk, t, hfirst, rfl⟩)
      · exact .segment hsplit hfits hexecutes hfault
      · obtain ⟨hfits, hexecutes⟩ := executesAll_of_checkSegments hwalk
        exact .output (fitFrom_zero_iff.mp hfits) hexecutes hfirst
    · rintro (⟨hsplit, hfits, hexecutes, hfault⟩ | ⟨hfits, hexecutes, hfirst⟩)
      · exact Or.inl ⟨_, _, _, _, hsplit, hfits, hexecutes, hfault⟩
      · obtain ⟨available, hwalk, rfl⟩ :=
          exists_checkSegments_eq_ok (fitFrom_zero_iff.mpr hfits) hexecutes
        exact Or.inr ⟨available, hwalk, _, hfirst, rfl⟩

-- A segment does not find what it makes itself, nor what a later one makes.
example :
    (⟨"g", ["x"], ["y"],
      [⟨0, .general, ["a"], ["x", "t", "u"], ["t"], .interpreted 0 [0] ["a"]⟩,
        ⟨1, .general, ["b"], ["t"], ["t", "u", "y"], .interpreted 1 [1] ["b"]⟩],
      .new 2 2⟩ : Executable).check = .error (.missingInput 0 "t") := by decide

end Whole

end HybridCompile
