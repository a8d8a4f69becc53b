import HybridCompile.Proofs.Engine.Builds
import HybridCompile.Proofs.Memory.Refusal

/-!
# HybridCompile — work that keeps its memory

What an arena counts can overflow only if memory is given back and reserved again, or refused again
and again. Work that keeps all that it is granted, and gives up as soon as it is refused, does
neither. In an arena of its own it has nothing to break down over, and the reference backend does no
other work.

* `Arena.Tight` — all that was ever granted is still reserved, and nothing was refused.
* `Work.Hoards` — the work keeps what it is granted; `Hoards.run_ne_crashed`.
* `neverCrashes_reference` — the reference backend.
-/

namespace HybridCompile

namespace Arena

/-- The statistics are there, all that was ever granted is still reserved, and nothing was refused.
So the counts are not above the live bytes. -/
def Tight (a : Arena) : Prop :=
  ∃ stats, a.stats? = some stats ∧ stats.reservations.toNat ≤ a.liveBytes.toNat ∧
    stats.cumulativeBytes.toNat ≤ a.liveBytes.toNat ∧ stats.rejected = 0

variable {a a' : Arena} {size : UInt64}

theorem tight_new (device : String) (budget : MemoryBudget) : (new device budget).Tight :=
  ⟨.zero, rfl, Nat.le_refl _, Nat.le_refl _, rfl⟩

/-- What fits can be counted: the counts stay within the live bytes, and those within the budget. -/
theorem Tight.not_cannotCount (h : a.Tight) (hpos : size ≠ 0) : ¬ a.CannotCount size := by
  obtain ⟨stats, hstats, hcount, hbytes, hrejected⟩ := h
  rintro ⟨_, hmem, hover⟩
  obtain rfl := Option.some.inj (hstats.symm.trans hmem)
  split at hover
  · next hfits =>
    have hle := of_decide_eq_true hfits
    have hceiling := a.budget.ceiling.toNat_lt
    have hsize : size.toNat ≠ 0 := fun hzero => hpos (UInt64.toNat_inj.mp hzero)
    rw [ArenaStats.addReservation_eq_none_iff, UInt64.size] at hover
    omega
  · rw [ArenaStats.addRejection_eq_none_iff, hrejected] at hover
    exact absurd hover (by decide)

/-- What is granted is counted and reserved alike. -/
theorem Tight.reserve (h : a.Tight) {label : String}
    (hgranted : a.reserve size label = (a', .granted)) : a'.Tight := by
  obtain ⟨stats, hstats, hcount, hbytes, hrejected⟩ := h
  have hanswers := a.answers_reserve size label
  rw [hgranted] at hanswers
  cases hanswers with
  | granted hpos hfits hcounts =>
    rw [hstats] at hcounts
    obtain ⟨after, rfl, hadd⟩ := hcounts.exists_after
    obtain ⟨hcount', hbytes', heq⟩ := ArenaStats.addReservation_eq_some_iff.mp hadd
    have hlive := toNat_liveBytes_add hfits
    have hsize : size.toNat ≠ 0 := fun hzero => hpos (UInt64.toNat_inj.mp hzero)
    exact ⟨after, rfl, by dsimp only; omega, by dsimp only; omega, by rw [heq]; exact hrejected⟩

end Arena

/-- The work keeps all memory that it is granted, gives up as soon as it is refused, and does not
break down of itself. -/
def Work.Hoards : Work → Prop
  | .done _ => True
  | .fail _ => True
  | .crash => False
  | .checkpoint next => ∀ cause?, (next cause?).Hoards
  | .reserve _ _ keep next =>
    keep = true ∧ (next none).Hoards ∧ ∀ e, ∃ cause, next (some e) = .fail cause
  | .fire next => next.Hoards
  | .pause _ next => next.Hoards
  | .observe next => next.Hoards
  | .readCache next => ∀ content?, (next content?).Hoards
  | .drainBatches next => ∀ batches, (next batches).Hoards
  | .writeCache _ next => next.Hoards

/-- Work that hoards does not break down. By induction on the work: the arena stays `Arena.Tight`,
so every request can be counted, and one that is refused ends the work. -/
theorem Work.Hoards.run_ne_crashed {w : Work} (h : w.Hoards) {s : BuildState}
    (hs : s.context.arena.Tight) : (w.run s).2 ≠ .crashed := by
  induction w generalizing s with
  | done | fail => exact fun h => (by cases h)
  | crash => exact absurd h id
  | checkpoint next ih => exact ih _ (h _) hs
  | reserve size label keep next ih =>
    obtain ⟨rfl, hgranted, hrefused⟩ := h
    rw [run_reserve, BuildContext.reserve]
    cases hr : s.context.arena.reserve size label with
    | mk arena answer =>
      cases answer with
      | granted => exact ih none hgranted (hs.reserve hr)
      | refused e =>
        obtain ⟨cause, hfail⟩ := hrefused e
        show ((next (some e)).run _).2 ≠ _
        rw [hfail]
        exact fun h => (by cases h)
      | crashed =>
        -- nobody breaks down over what can be counted
        have hcrashed := (Arena.reserve_eq_crashed_iff label).mp (congrArg Prod.snd hr)
        exact absurd hcrashed.2 (hs.not_cannotCount hcrashed.1)
  | fire next ih => exact ih h hs
  | pause _ next ih => exact ih h hs
  | observe next ih => exact ih h hs
  | readCache next ih => exact ih _ (h _) hs
  | drainBatches next ih =>
    unfold Work.run
    split
    · exact ih _ (h _) hs
    · exact ih _ (h _) hs
  | writeCache _ next ih => exact ih h hs

/-- A layer keeps its workspace and gives up if it is refused, so it hoards if what comes next does.
-/
theorem hoards_keptByLayers : Work.KeptByLayers Work.Hoards where
  fail _ := True.intro
  checkpoint h := h
  reserve h := ⟨rfl, h, fun _ => ⟨_, rfl⟩⟩
  pause h := h

/-- The reference backend hoards: the layers keep what they are granted, and the calibration asks
for no memory. -/
theorem hoards_reference (b : ReferenceBackend) (n : Network) (o : EngineOptions) :
    (b.work n o).Hoards := by
  refine hoards_keptByLayers.referenceWork b n o fun image => ?_
  unfold ReferenceBackend.calibrationWork
  split
  · rintro (_ | content)
    · exact fun batches => True.intro
    · exact True.intro
  · exact True.intro

/-- The reference backend does not break down: it `Hoards`. -/
theorem neverCrashes_reference (b : ReferenceBackend) : b.toBackend.NeverCrashes :=
  fun n o _ device memory _ _ _ => (hoards_reference b n o).run_ne_crashed
    (Arena.tight_new device memory)

end HybridCompile
