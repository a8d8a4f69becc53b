import HybridCompile.Plan.Partition
import Mathlib.Data.List.Chain

/-!
# HybridCompile — runs and maximal blocks

Joining neighbours and demoting short runs are two greedy passes over a list of runs. What they
compute together is said without them: a place is on the accelerator when the longest stretch of
eligible places around it is long enough.

* `Run.Tiles` — runs that follow one another without gap; every pass keeps it.
* `Run.Places` — which target a place gets; joining does not change it.
* `MaximalBlock` — a stretch of places that cannot be made longer.
* `places_ofVerdicts_iff` — the two passes place an operator as its block says.
-/

namespace HybridCompile

namespace Run

/-- Runs that follow one another from one place up to another without gap, none of them empty. This
is the invariant of both passes: `Tiles.coalesce` and `Tiles.map_demote` keep it, so whatever
`ofVerdicts` makes goes through all operators once and in order. -/
inductive Tiles : Nat → List Run → Nat → Prop where
  | nil (place : Nat) : Tiles place [] place
  | cons {start stop : Nat} {r : Run} {rest : List Run} (hstart : r.start = start)
      (hlt : r.start < r.stop) (hrest : Tiles r.stop rest stop) : Tiles start (r :: rest) stop

/-- The place is one of the run's, which begin with `start` and end before `stop`. -/
def Covers (r : Run) (place : Nat) : Prop := r.start ≤ place ∧ place < r.stop

/-- Some run for the target covers the place. In a tiling it is the only run that does, by
`Tiles.eq_of_covers`, so a place has one target. -/
def Places (runs : List Run) (target : Target) (place : Nat) : Prop :=
  ∃ r ∈ runs, r.target = target ∧ r.Covers place

/-- Neighbours have different targets. -/
abbrev Alternates (runs : List Run) : Prop := runs.IsChain fun a b => a.target ≠ b.target

variable {a b place minRegionSize : Nat} {r : Run} {runs : List Run} {target : Target}

theorem start_add_length (h : r.start ≤ r.stop) : r.start + r.length = r.stop := by
  unfold length
  omega

theorem mem_range'_iff : place ∈ List.range' r.start r.length ↔ r.Covers place := by
  rw [List.mem_range'_1, length, Covers]
  omega

theorem places_cons : Places (r :: runs) target place ↔
    (r.target = target ∧ r.Covers place) ∨ Places runs target place := by
  simp [Places]

/-! ## Tilings -/

/-- A tiling ends no earlier than it begins. Induction on the tiling. -/
theorem Tiles.le (h : Tiles a runs b) : a ≤ b := by
  induction h with
  | nil => exact Nat.le_refl _
  | cons hstart hlt _ ih => omega

/-- Every run of a tiling lies within it, and is not empty. Induction on the tiling: a run of the
rest lies behind the first one. -/
theorem Tiles.bounds (h : Tiles a runs b) (hr : r ∈ runs) :
    a ≤ r.start ∧ r.start < r.stop ∧ r.stop ≤ b := by
  induction h with
  | nil => cases hr
  | cons hstart hlt hrest ih =>
    rcases List.mem_cons.mp hr with rfl | hr
    · exact ⟨by omega, hlt, hrest.le⟩
    · have := ih hr
      omega

/-- A tiling leaves no place out. Induction on the tiling; a place that the first run does not cover
stands behind it, where the rest begins. -/
theorem Tiles.exists_covers (h : Tiles a runs b) (hle : a ≤ place) (hlt : place < b) :
    ∃ r ∈ runs, r.Covers place := by
  induction h with
  | nil => omega
  | @cons _ _ first rest hstart _ _ ih =>
    by_cases hfirst : place < first.stop
    · exact ⟨first, List.mem_cons_self, by omega, hfirst⟩
    · obtain ⟨r, hr, hcovers⟩ := ih (by omega) hlt
      exact ⟨r, List.mem_cons_of_mem first hr, hcovers⟩

/-- No two runs of a tiling cover one place. Induction on the tiling; a place of the first run is in
front of all that `Tiles.bounds` allows to the rest. -/
theorem Tiles.eq_of_covers (h : Tiles a runs b) {r' : Run} (hr : r ∈ runs) (hr' : r' ∈ runs)
    (hc : r.Covers place) (hc' : r'.Covers place) : r = r' := by
  unfold Covers at hc hc'
  induction h with
  | nil => cases hr
  | cons _ _ hrest ih =>
    rcases List.mem_cons.mp hr with heq | hr
    · rcases List.mem_cons.mp hr' with heq' | hr'
      · rw [heq, heq']
      · -- the rest starts where the first run ends
        have := hrest.bounds hr'
        subst heq
        omega
    · rcases List.mem_cons.mp hr' with heq' | hr'
      · have := hrest.bounds hr
        subst heq'
        omega
      · exact ih hr hr'

/-- Behind a run in a tiling the tiling ends, or a run for the other target covers the next place.
Induction on the tiling; `Alternates` gives the target of the neighbour. -/
theorem Tiles.right (h : Tiles a runs b) (hne : Alternates runs) (hr : r ∈ runs) :
    r.stop = b ∨ ∃ r' ∈ runs, r'.target ≠ r.target ∧ r'.Covers r.stop := by
  induction h with
  | nil => cases hr
  | cons _ _ hrest ih =>
    rcases List.mem_cons.mp hr with rfl | hr
    · cases hrest with
      | nil => exact Or.inl rfl
      | @cons _ _ next _ hnext hlt _ =>
        have hdiffer := (List.isChain_cons_cons.mp hne).1
        exact Or.inr ⟨next, by simp, Ne.symm hdiffer, by omega, by omega⟩
    · rcases ih hne.tail hr with heq | ⟨r', hr', hdiffer⟩
      · exact Or.inl heq
      · exact Or.inr ⟨r', List.mem_cons_of_mem _ hr', hdiffer⟩

/-- In front of a run in a tiling the tiling begins, or a run for the other target covers the place
before. Induction on the tiling, and harder than `Tiles.right`: the neighbour is found only when the
run turns out to be the head of the rest. -/
theorem Tiles.left (h : Tiles a runs b) (hne : Alternates runs) (hr : r ∈ runs) :
    r.start = a ∨ ∃ r' ∈ runs, r'.target ≠ r.target ∧ r'.Covers (r.start - 1) := by
  induction h with
  | nil => cases hr
  | @cons _ _ first rest hstart hlt hrest ih =>
    rcases List.mem_cons.mp hr with rfl | hr
    · exact Or.inl hstart
    · rcases ih hne.tail hr with heq | ⟨r', hr', hdiffer⟩
      · -- the run is the head of the rest, so `first` stands right before it
        cases hrest with
        | nil => cases hr
        | @cons _ _ next _ hnext hnextlt hrest' =>
          have hsame : r = next := by
            rcases List.mem_cons.mp hr with hr | hr
            · exact hr
            · have := hrest'.bounds hr
              omega
          subst hsame
          have hdiffer := (List.isChain_cons_cons.mp hne).1
          exact Or.inr ⟨first, List.mem_cons_self, hdiffer, by omega, by omega⟩
      · exact Or.inr ⟨r', List.mem_cons_of_mem _ hr', hdiffer⟩

/-! ## Joining -/

theorem join_cons (r next : Run) (rest : List Run) : join r (next :: rest) =
    if next.target = r.target then
      { r with stop := next.stop, reasons := r.reasons ++ next.reasons } :: rest
    else r :: next :: rest := rfl

/-- A run put before a tiling stands before it, or is joined with its first run; either way the
result is a tiling that begins where the run does. -/
theorem Tiles.join (hlt : r.start < r.stop) (h : Tiles r.stop runs b) :
    Tiles r.start (join r runs) b := by
  cases h with
  | nil => exact .cons rfl hlt (.nil _)
  | @cons _ _ next rest hnext hnextlt hrest =>
    rw [join_cons]
    split
    · have hjoined : r.start < next.stop := by omega
      exact .cons rfl hjoined hrest
    · exact .cons rfl hlt (.cons hnext hnextlt hrest)

/-- Joining all neighbours keeps a tiling. Induction on the tiling, each run by `Tiles.join`. -/
theorem Tiles.coalesce (h : Tiles a runs b) : Tiles a (coalesce runs) b := by
  induction h with
  | nil => exact .nil _
  | cons hstart hlt _ ih =>
    subst hstart
    exact ih.join hlt

/-- Joining a run with what follows it places as before: where the two are joined they have one
target, and the joined run covers what the two cover. -/
theorem places_join (hlt : r.start < r.stop) (h : Tiles r.stop runs b) :
    Places (join r runs) target place ↔
      (r.target = target ∧ r.Covers place) ∨ Places runs target place := by
  cases h with
  | nil => simp [join, Places]
  | @cons _ _ next rest hnext hnextlt hrest =>
    rw [join_cons]
    split
    · next hsame =>
      rw [places_cons, places_cons, ← or_assoc]
      refine or_congr ?_ Iff.rfl
      -- the joined run covers what the two cover, because the second starts where the first ends
      have hcovers : ({ r with stop := next.stop, reasons := r.reasons ++ next.reasons } :
          Run).Covers place ↔ r.Covers place ∨ next.Covers place := by
        simp only [Covers]
        omega
      rw [hcovers, hsame, and_or_left]
    · rw [places_cons]

/-- Joining all neighbours places as before. Induction on the tiling, each run by `places_join`. -/
theorem places_coalesce (h : Tiles a runs b) :
    Places (coalesce runs) target place ↔ Places runs target place := by
  induction h with
  | nil => exact Iff.rfl
  | @cons _ _ r rest hstart hlt hrest ih =>
    rw [places_cons, ← ih]
    exact places_join hlt hrest.coalesce

/-- A run put before runs of which no neighbours could be joined leaves none that could be: either
it is joined with the first of them, whose target it has, or the two differ. -/
theorem alternates_join (h : Alternates runs) : Alternates (join r runs) := by
  cases runs with
  | nil => exact List.isChain_singleton r
  | cons next rest =>
    rw [join_cons]
    split
    · next hsame =>
      -- the joined run has the target that `next` had
      cases rest with
      | nil => exact List.isChain_singleton _
      | cons other rest =>
        obtain ⟨hdiffer, hrest⟩ := List.isChain_cons_cons.mp h
        exact List.isChain_cons_cons.mpr ⟨hsame ▸ hdiffer, hrest⟩
    · next hdiffer => exact List.isChain_cons_cons.mpr ⟨Ne.symm hdiffer, h⟩

/-- Joining neighbours leaves none that could be joined. Induction on the runs, each by
`alternates_join`. -/
theorem alternates_coalesce (runs : List Run) : Alternates (coalesce runs) := by
  induction runs with
  | nil => exact List.isChain_nil
  | cons r rest ih => exact alternates_join ih

/-! ## The runs of verdicts -/

/-- The verdicts, each a run of its own, are a tiling with one place for each. Induction on the
verdicts, over all places to begin with. -/
theorem tiles_singles (place : Nat) (verdicts : List (Option FallbackReason)) :
    Tiles place (singles place verdicts) (place + verdicts.length) := by
  induction verdicts generalizing place with
  | nil => exact .nil place
  | cons v rest ih =>
    have hrest := ih (place + 1)
    rw [Nat.add_right_comm, Nat.add_assoc] at hrest
    cases v with
    | none => exact .cons rfl (Nat.lt_succ_self place) hrest
    | some reason => exact .cons rfl (Nat.lt_succ_self place) hrest

/-- Alone, an operator is on the accelerator when nothing speaks against it. Induction on the
verdicts; `place - start` is its number among those that are left. -/
theorem places_singles (start : Nat) (verdicts : List (Option FallbackReason)) :
    Places (singles start verdicts) .accelerator place ↔
      start ≤ place ∧ verdicts[place - start]? = some none := by
  induction verdicts generalizing start with
  | nil => simp [singles, Places]
  | cons v rest ih =>
    rw [singles, places_cons, ih (start + 1)]
    rcases Nat.lt_trichotomy place start with hlt | heq | hgt
    · have hcovers : ¬(single start v).Covers place := by
        cases v <;> simp only [single, Covers] <;> omega
      simp only [hcovers, and_false, false_or]
      omega
    · subst heq
      cases v <;> simp [single, Covers]
    · have hcovers : ¬(single start v).Covers place := by
        cases v <;> simp only [single, Covers] <;> omega
      have hplace : place - start = (place - (start + 1)) + 1 := by omega
      rw [hplace, List.getElem?_cons_succ]
      simp only [hcovers, and_false, false_or]
      exact and_congr_left fun _ => by omega

/-! ## Demotion -/

theorem demote_start : (demote minRegionSize r).start = r.start := by
  unfold demote
  split <;> rfl

theorem demote_stop : (demote minRegionSize r).stop = r.stop := by
  unfold demote
  split <;> rfl

theorem demote_covers : (demote minRegionSize r).Covers place ↔ r.Covers place := by
  rw [Covers, Covers, demote_start, demote_stop]

/-- A run stays on the accelerator when it is long enough; no run is moved to it. -/
theorem demote_target :
    (demote minRegionSize r).target = .accelerator ↔
      r.target = .accelerator ∧ minRegionSize ≤ r.length := by
  unfold demote
  split
  · next h => exact ⟨fun h' => (by cases h'), fun h' => absurd h.2 (Nat.not_lt.mpr h'.2)⟩
  · next h => exact ⟨fun h' => ⟨h', Nat.not_lt.mp fun hlt => h ⟨h', hlt⟩⟩, fun h' => h'.1⟩

/-- Demotion keeps a tiling, as it keeps both ends of every run. Induction on the tiling. -/
theorem Tiles.map_demote (h : Tiles a runs b) : Tiles a (runs.map (demote minRegionSize)) b := by
  induction h with
  | nil => exact .nil _
  | cons hstart hlt _ ih =>
    refine .cons (demote_start.trans hstart) ?_ ?_
    · rwa [demote_start, demote_stop]
    · rwa [demote_stop]

/-- After demotion the accelerator has the places of those runs for it that are long enough. -/
theorem places_map_demote :
    Places (runs.map (demote minRegionSize)) .accelerator place ↔
      ∃ r ∈ runs, r.target = .accelerator ∧ minRegionSize ≤ r.length ∧ r.Covers place := by
  simp only [Places, List.mem_map, exists_exists_and_eq_and, demote_target, demote_covers,
    and_assoc]

/-! ## Both passes

`coalesce (singles 0 verdicts)` are the runs before demotion. -/

section Joined

variable (verdicts : List (Option FallbackReason))

theorem tiles_joined : Tiles 0 (coalesce (singles 0 verdicts)) verdicts.length := by
  have h := (tiles_singles 0 verdicts).coalesce
  rwa [Nat.zero_add] at h

theorem places_joined :
    Places (coalesce (singles 0 verdicts)) .accelerator place ↔ verdicts[place]? = some none := by
  rw [places_coalesce (tiles_singles 0 verdicts), places_singles]
  simp

end Joined

/-- The runs after both passes go through all verdicts, whatever the shortest length that is asked
for. -/
theorem tiles_ofVerdicts (minRegionSize : Nat) (verdicts : List (Option FallbackReason)) :
    Tiles 0 (ofVerdicts minRegionSize verdicts) verdicts.length :=
  (tiles_joined verdicts).map_demote.coalesce

end Run

/-! ## Blocks -/

/-- Places from `start` up to `stop` at which `p` holds, and that cannot be made longer among the
places below `bound`: at either end the places are over, or `p` does not hold. -/
structure MaximalBlock (p : Nat → Prop) (bound start stop : Nat) : Prop where
  stop_le : stop ≤ bound
  holds : ∀ place, start ≤ place → place < stop → p place
  left : start = 0 ∨ ¬p (start - 1)
  right : stop = bound ∨ ¬p stop

/-- A place lies in one maximal block. Of two blocks around it neither begins or ends inside the
other, since the other could not hold there. -/
theorem MaximalBlock.eq_of_mem {p : Nat → Prop} {bound a b a' b' place : Nat}
    (h : MaximalBlock p bound a b) (h' : MaximalBlock p bound a' b') (ha : a ≤ place)
    (hb : place < b) (ha' : a' ≤ place) (hb' : place < b') : a = a' ∧ b = b' := by
  have hle := h.stop_le
  have hle' := h'.stop_le
  -- a block that began or ended inside the other could be made longer
  have hstart : ¬a < a' := fun hlt =>
    h'.left.elim (by omega) fun hout => hout (h.holds _ (by omega) (by omega))
  have hstart' : ¬a' < a := fun hlt =>
    h.left.elim (by omega) fun hout => hout (h'.holds _ (by omega) (by omega))
  have hstop : ¬b < b' := fun hlt =>
    h.right.elim (by omega) fun hout => hout (h'.holds _ (by omega) (by omega))
  have hstop' : ¬b' < b := fun hlt =>
    h'.right.elim (by omega) fun hout => hout (h.holds _ (by omega) (by omega))
  omega

/-- A stretch of places at which `p` holds can be made longer until it is a maximal block. The
recursion is on the number of places outside of it, of which each step takes one. -/
theorem exists_maximalBlock {p : Nat → Prop} {bound start stop : Nat} (hle : stop ≤ bound)
    (hp : ∀ place, start ≤ place → place < stop → p place) :
    ∃ a b, MaximalBlock p bound a b ∧ a ≤ start ∧ stop ≤ b := by
  by_cases hright : stop = bound ∨ ¬p stop
  · by_cases hleft : start = 0 ∨ ¬p (start - 1)
    · exact ⟨start, stop, ⟨hle, hp, hleft, hright⟩, Nat.le_refl _, Nat.le_refl _⟩
    · -- one place longer on the left
      rw [not_or, not_not] at hleft
      have hlonger : ∀ place, start - 1 ≤ place → place < stop → p place := by
        intro place hplace hlt
        by_cases heq : place = start - 1
        · exact heq ▸ hleft.2
        · exact hp place (by omega) hlt
      obtain ⟨a, b, hblock, ha, hb⟩ := exists_maximalBlock hle hlonger
      exact ⟨a, b, hblock, by omega, hb⟩
  · -- one place longer on the right
    rw [not_or, not_not] at hright
    have hlt : stop < bound := Nat.lt_of_le_of_ne hle hright.1
    have hlonger : ∀ place, start ≤ place → place < stop + 1 → p place := by
      intro place hplace hstop
      by_cases heq : place = stop
      · exact heq ▸ hright.2
      · exact hp place hplace (by omega)
    obtain ⟨a, b, hblock, ha, hb⟩ := exists_maximalBlock hlt hlonger
    exact ⟨a, b, hblock, ha, by omega⟩
termination_by start + (bound - stop)

namespace Run

variable {runs : List Run} {r : Run} {n place : Nat} {p : Nat → Prop}

/-- Where neighbours differ, a run for the accelerator is a maximal block of the places that are on
it: next to the run there is nothing, by `Tiles.left` and `Tiles.right`, or a place that is not on
it. -/
theorem Tiles.maximalBlock (h : Tiles 0 runs n) (hne : Alternates runs)
    (hp : ∀ place, Places runs .accelerator place ↔ p place) (hr : r ∈ runs)
    (hacc : r.target = .accelerator) : MaximalBlock p n r.start r.stop where
  stop_le := (h.bounds hr).2.2
  holds place hle hlt := (hp place).mp ⟨r, hr, hacc, hle, hlt⟩
  left := by
    rcases h.left hne hr with heq | ⟨r', hr', hdiffer, hcovers⟩
    · exact Or.inl heq
    · refine Or.inr fun hholds => hdiffer ?_
      obtain ⟨other, hother, hotherAcc, hotherCovers⟩ := (hp _).mpr hholds
      rw [h.eq_of_covers hr' hother hcovers hotherCovers, hotherAcc, hacc]
  right := by
    rcases h.right hne hr with heq | ⟨r', hr', hdiffer, hcovers⟩
    · exact Or.inl heq
    · refine Or.inr fun hholds => hdiffer ?_
      obtain ⟨other, hother, hotherAcc, hotherCovers⟩ := (hp _).mpr hholds
      rw [h.eq_of_covers hr' hother hcovers hotherCovers, hotherAcc, hacc]

/-- Before demotion the runs for the accelerator are the maximal blocks of eligible operators,
because `coalesce` leaves no two neighbours for one target. -/
theorem maximalBlock_of_mem_joined {verdicts : List (Option FallbackReason)}
    (hr : r ∈ coalesce (singles 0 verdicts)) (hacc : r.target = .accelerator) :
    MaximalBlock (fun i => verdicts[i]? = some none) verdicts.length r.start r.stop :=
  (tiles_joined verdicts).maximalBlock (alternates_coalesce _) (fun _ => places_joined verdicts)
    hr hacc

/-- The two passes put an operator on the accelerator when the block of eligible operators around it
is long enough. From left to right the block is the run that `places_map_demote` gives; from right
to left it is the run that covers the place, as there is one block around it only. -/
theorem places_ofVerdicts_iff (minRegionSize : Nat) (verdicts : List (Option FallbackReason)) :
    Places (ofVerdicts minRegionSize verdicts) .accelerator place ↔
      ∃ start stop, MaximalBlock (fun i => verdicts[i]? = some none) verdicts.length start stop ∧
        start ≤ place ∧ place < stop ∧ minRegionSize ≤ stop - start := by
  rw [ofVerdicts, places_coalesce (tiles_joined verdicts).map_demote, places_map_demote]
  constructor
  · rintro ⟨r, hr, hacc, hlength, hcovers⟩
    exact ⟨r.start, r.stop, maximalBlock_of_mem_joined hr hacc, hcovers.1, hcovers.2, hlength⟩
  · rintro ⟨start, stop, hblock, hle, hlt, hlength⟩
    obtain ⟨r, hr, hacc, hcovers⟩ :=
      (places_joined verdicts).mpr (hblock.holds place hle hlt)
    obtain ⟨rfl, rfl⟩ :=
      hblock.eq_of_mem (maximalBlock_of_mem_joined hr hacc) hle hlt hcovers.1 hcovers.2
    exact ⟨r, hr, hacc, hlength, hcovers⟩

end Run

end HybridCompile
