import HybridCompile.Proofs.Engine.Calm
import HybridCompile.Proofs.Memory.Refusal
import HybridCompile.Proofs.Partition.Placement
import Mathlib.Order.Bounds.Basic

/-!
# HybridCompile — where the reference backend fails

The reference backend goes through the layers of a network. At each it may be stopped in three ways:
it cannot build the layer's kind, the layer's workspace does not fit beside the workspaces of the
layers before it, or the arena cannot count the request for it. Where it stops can be read off the
network and the memory, without running it.

* `Arena.InOrder` — what the numbers of an arena have in common after every history.
* `ReferenceBackend.BlockedAt`, `Obstacle` — a layer that cannot be built, and why.
* `ReferenceBackend.Advanced` — what has become of a context some layers later.
* `run_layersWork` — all layers are passed, or the first blocked one ends the work.
* `referenceWork_fails_exactly` — when a network is built, and how it fails otherwise.
-/

namespace HybridCompile

/-- A build may go on while no token is fired and no deadline has passed. -/
theorem BuildBudget.check_eq_none_iff {b : BuildBudget} {signal : Bool} {clock : Nat} :
    b.check signal clock = none ↔
      (b.cancelled || (b.followsSignal && signal)) = false ∧
        ∀ deadline, b.deadline? = some deadline → clock < deadline := by
  unfold check
  cases b.cancelled || (b.followsSignal && signal) with
  | true => simp
  | false => cases b.deadline? <;> simp

/-- A budget that lets the build go on at some time `clock'` did so before, at every earlier
`clock`: tokens do not depend on the time, and a deadline only comes nearer. -/
theorem BuildBudget.check_eq_none_of_le {b : BuildBudget} {signal : Bool} {clock clock' : Nat}
    (h : b.check signal clock' = none) (hle : clock ≤ clock') : b.check signal clock = none := by
  obtain ⟨htokens, hdeadline⟩ := check_eq_none_iff.mp h
  exact check_eq_none_iff.mpr ⟨htokens, fun deadline hsome =>
    Nat.lt_of_le_of_lt hle (hdeadline deadline hsome)⟩

/-- Memory that fits, can be counted, and is kept. -/
theorem BuildContext.reserve_of_fits {c : BuildContext} {size : UInt64} (hpos : size ≠ 0)
    (hfits : c.arena.fits size = true) (hcount : ¬ c.arena.CannotCount size) (label : String) :
    ∃ stats?,
      Arena.Counts (·.addReservation size (c.arena.liveBytes + size)) c.arena.stats? stats? ∧
      c.reserve size label true =
        ({ c with
            arena := { c.arena with liveBytes := c.arena.liveBytes + size, stats? }
            held := c.held ++ [⟨label, size⟩] }, .granted) := by
  obtain ⟨stats?, hcounts, hr⟩ := Arena.reserve_of_fits hpos hfits hcount label
  exact ⟨stats?, hcounts, by rw [BuildContext.reserve, hr]; rfl⟩

/-! ## Arenas in order -/

/-- The bytes of an arena are within its budget and not above its peak, and it has not counted more
grants than bytes. So the count of the bytes is the first to overflow. -/
structure Arena.InOrder (a : Arena) : Prop where
  live_le : a.liveBytes.toNat ≤ a.budget.ceiling.toNat
  live_le_peak : ∀ stats ∈ a.stats?, a.liveBytes.toNat ≤ stats.peakLiveBytes.toNat
  grants_le : ∀ stats ∈ a.stats?, stats.reservations.toNat ≤ stats.cumulativeBytes.toNat

/-- An arena is in order after every history: by `Ledger.Accounted` each grant is of one byte at
least, and the peak is the highest point of the history. -/
theorem Ledger.inOrder_run (device : String) (memory : MemoryBudget) (history : List Ledger.Step) :
    ((Ledger.new device memory).run history).arena.InOrder where
  live_le := (Ledger.accounted_run device memory history).live_le
  live_le_peak stats hstats :=
    (Ledger.isGreatest_peakLiveBytes device memory history hstats).2
      ⟨history, List.prefix_refl history, rfl⟩
  grants_le stats hstats := by
    have haccounted := Ledger.accounted_run device memory history
    have hcounted := haccounted.counted stats hstats
    rw [hcounted.reservations_eq, hcounted.cumulative_eq]
    exact Ledger.length_le_totalBytes haccounted.granted_pos

/-- While an arena is in order, what fits cannot be counted exactly if its bytes overflow. -/
theorem Arena.InOrder.cannotCount_iff {a : Arena} {size : UInt64} (h : a.InOrder) (hpos : size ≠ 0)
    (hfits : a.fits size = true) :
    a.CannotCount size ↔
      ∃ stats ∈ a.stats?, UInt64.size ≤ stats.cumulativeBytes.toNat + size.toNat := by
  have hsize : size.toNat ≠ 0 := fun hzero => hpos (UInt64.toNat_inj.mp hzero)
  unfold Arena.CannotCount
  simp only [hfits, if_true, ArenaStats.addReservation_eq_none_iff]
  refine exists_congr fun stats => and_congr_right fun hstats => ?_
  have hle := h.grants_le stats hstats
  omega

namespace ReferenceBackend

/-! ## What stands in the way -/

/-- Some more bytes overflow the count of the bytes that were ever granted. -/
def Overflows (a : Arena) (bytes : Nat) : Prop :=
  ∃ stats ∈ a.stats?, UInt64.size ≤ stats.cumulativeBytes.toNat + bytes

/-- The layer at a place cannot be built: its kind is rejected, or its workspace does not fit beside
those of the layers before it, or it fits but all these workspaces cannot be counted. -/
def BlockedAt (b : ReferenceBackend) (a : Arena) (layers : List Layer) (i : Nat) : Prop :=
  ∃ layer, layers[i]? = some layer ∧
    (b.rejected.contains layer.kind = true ∨
      b.layerWorkspace ≠ 0 ∧
        (a.budget.ceiling.toNat < a.liveBytes.toNat + (i + 1) * b.layerWorkspace.toNat ∨
          Overflows a ((i + 1) * b.layerWorkspace.toNat)))

/-- How the layer at a place ends the work, if it cannot be built. That its kind is rejected comes
before all else, and that its workspace does not fit comes before what that does to the counts. -/
inductive Obstacle (b : ReferenceBackend) (a : Arena) (i : Nat) (layer : Layer) : Ending → Prop where
  | rejected (hkind : b.rejected.contains layer.kind = true) :
      Obstacle b a i layer
        (.failure (.layerRejected layer.name s!"no converter for '{layer.kind}'"))
  | exhausted {available : UInt64} (hkind : b.rejected.contains layer.kind = false)
      (hless : available < b.layerWorkspace)
      (hleft : a.liveBytes.toNat + i * b.layerWorkspace.toNat + available.toNat =
        a.budget.ceiling.toNat)
      (hcounted : ∀ stats ∈ a.stats?, stats.rejected.toNat + 1 < UInt64.size) :
      Obstacle b a i layer (.failure (.outOfMemory (.outOfMemory a.device
        s!"{layer.name}:workspace" b.layerWorkspace available a.budget.ceiling)))
  /-- It does not fit, and that is one refusal more than can be counted. -/
  | refusalUncounted {stats : ArenaStats} (hkind : b.rejected.contains layer.kind = false)
      (hpos : b.layerWorkspace ≠ 0)
      (hfull : a.budget.ceiling.toNat < a.liveBytes.toNat + (i + 1) * b.layerWorkspace.toNat)
      (hstats : a.stats? = some stats) (hover : UInt64.size ≤ stats.rejected.toNat + 1) :
      Obstacle b a i layer .crashed
  /-- It fits, but its bytes and those ever granted are more than can be counted. -/
  | grantUncounted (hkind : b.rejected.contains layer.kind = false) (hpos : b.layerWorkspace ≠ 0)
      (hfits : a.liveBytes.toNat + (i + 1) * b.layerWorkspace.toNat ≤ a.budget.ceiling.toNat)
      (hover : Overflows a ((i + 1) * b.layerWorkspace.toNat)) :
      Obstacle b a i layer .crashed

/-- What has become of the statistics when `count` layers are built and `live` bytes are reserved. -/
structure StatsAdvanced (b : ReferenceBackend) (count : Nat) (live : UInt64)
    (stats stats' : ArenaStats) : Prop where
  peak_eq : stats'.peakLiveBytes.toNat = max stats.peakLiveBytes.toNat live.toNat
  reservations_eq : stats'.reservations.toNat =
    stats.reservations.toNat + if b.layerWorkspace = 0 then 0 else count
  cumulative_eq : stats'.cumulativeBytes.toNat =
    stats.cumulativeBytes.toNat + count * b.layerWorkspace.toNat
  rejected_eq : stats'.rejected = stats.rejected

/-- What has become of a context when `count` layers are built. -/
structure Advanced (b : ReferenceBackend) (count : Nat) (c c' : BuildContext) : Prop where
  checkpoints_eq : c'.checkpoints = c.checkpoints + count
  clock_eq : c'.clock = c.clock + count * b.layerDelay
  signal_eq : c'.signal = c.signal
  budget_eq : c'.budget = c.budget
  device_eq : c'.arena.device = c.arena.device
  memory_eq : c'.arena.budget = c.arena.budget
  live_eq : c'.arena.liveBytes.toNat = c.arena.liveBytes.toNat + count * b.layerWorkspace.toNat
  stats_rel :
    Option.Rel (b.StatsAdvanced count c'.arena.liveBytes) c.arena.stats? c'.arena.stats?
  arena_eq : b.layerWorkspace = 0 → c'.arena = c.arena

variable {b : ReferenceBackend} {layer : Layer} {layers : List Layer} {next : Work}
variable {c c' c'' : BuildContext} {s : BuildState} {a a' : Arena}

/-- Statistics that nothing was done to are advanced by no layers, or by layers without a workspace;
the peak stays because what is live is not above it. -/
theorem statsAdvanced_of_zero {count : Nat} {live : UInt64} {stats : ArenaStats}
    (hnone : count = 0 ∨ b.layerWorkspace = 0) (hpeak : live.toNat ≤ stats.peakLiveBytes.toNat) :
    b.StatsAdvanced count live stats stats where
  peak_eq := (max_eq_left hpeak).symm
  reservations_eq := by rcases hnone with h | h <;> simp [h]
  cumulative_eq := by rcases hnone with h | h <;> simp [h]
  rejected_eq := rfl

/-- Statistics that nothing was done to are what they were. -/
theorem rel_statsAdvanced_of_zero {count : Nat} (hnone : count = 0 ∨ b.layerWorkspace = 0)
    (horder : a.InOrder) :
    Option.Rel (b.StatsAdvanced count a.liveBytes) a.stats? a.stats? := by
  cases hstats : a.stats? with
  | none => exact .none
  | some stats => exact .some (statsAdvanced_of_zero hnone (horder.live_le_peak stats hstats))

/-- No layers leave a context as it is, which for the peak needs `Arena.InOrder`. -/
theorem advanced_zero (horder : c.arena.InOrder) : b.Advanced 0 c c where
  checkpoints_eq := rfl
  clock_eq := by rw [Nat.zero_mul, Nat.add_zero]
  signal_eq := rfl
  budget_eq := rfl
  device_eq := rfl
  memory_eq := rfl
  live_eq := by rw [Nat.zero_mul, Nat.add_zero]
  stats_rel := rel_statsAdvanced_of_zero (.inl rfl) horder
  arena_eq _ := rfl

/-- What is live only grows, so the peak in between is not above the last one. -/
theorem StatsAdvanced.trans {count count' : Nat} {live live' : UInt64}
    {stats stats' stats'' : ArenaStats} (h : b.StatsAdvanced count live stats stats')
    (h' : b.StatsAdvanced count' live' stats' stats'') (hle : live.toNat ≤ live'.toNat) :
    b.StatsAdvanced (count + count') live' stats stats'' where
  peak_eq := by rw [h'.peak_eq, h.peak_eq, max_assoc, max_eq_right hle]
  reservations_eq := by
    rw [h'.reservations_eq, h.reservations_eq]
    split <;> omega
  cumulative_eq := by rw [h'.cumulative_eq, h.cumulative_eq, Nat.add_mul, Nat.add_assoc]
  rejected_eq := h'.rejected_eq.trans h.rejected_eq

/-- Some layers and some more are the layers together. Field by field the counts add up, and the
statistics are those of `StatsAdvanced.trans`. -/
theorem Advanced.trans {count count' : Nat} (h : b.Advanced count c c')
    (h' : b.Advanced count' c' c'') : b.Advanced (count + count') c c'' where
  checkpoints_eq := by rw [h'.checkpoints_eq, h.checkpoints_eq, Nat.add_assoc]
  clock_eq := by rw [h'.clock_eq, h.clock_eq, Nat.add_mul, Nat.add_assoc]
  signal_eq := h'.signal_eq.trans h.signal_eq
  budget_eq := h'.budget_eq.trans h.budget_eq
  device_eq := h'.device_eq.trans h.device_eq
  memory_eq := h'.memory_eq.trans h.memory_eq
  live_eq := by rw [h'.live_eq, h.live_eq, Nat.add_mul, Nat.add_assoc]
  stats_rel := by
    have hle : c'.arena.liveBytes.toNat ≤ c''.arena.liveBytes.toNat :=
      h'.live_eq ▸ Nat.le_add_right _ _
    exact rel_trans h.stats_rel h'.stats_rel fun hstats hstats' => hstats.trans hstats' hle
  arena_eq hzero := (h'.arena_eq hzero).trans (h.arena_eq hzero)

/-! ## One layer -/

/-- The workspace of a layer is granted, if it takes any. -/
def HasRoom (b : ReferenceBackend) (a : Arena) : Prop :=
  b.layerWorkspace = 0 ∨ a.fits b.layerWorkspace = true ∧ ¬ a.CannotCount b.layerWorkspace

/-- The context once the workspace of a layer is reserved. -/
def holdWorkspace (b : ReferenceBackend) (layer : Layer) (c : BuildContext) : BuildContext :=
  if b.layerWorkspace = 0 then c
  else (c.reserve b.layerWorkspace s!"{layer.name}:workspace" true).1

/-- The context once a layer is built. -/
def passLayer (b : ReferenceBackend) (layer : Layer) (c : BuildContext) : BuildContext :=
  (b.holdWorkspace layer c.checkpoint.1).pause b.layerDelay

/-- A grant that is counted is one layer's. -/
theorem rel_statsAdvanced_of_counts (hpos : b.layerWorkspace ≠ 0) {live : UInt64}
    {stats?₁ stats?₂ : Option ArenaStats}
    (h : Arena.Counts (·.addReservation b.layerWorkspace live) stats?₁ stats?₂) :
    Option.Rel (b.StatsAdvanced 1 live) stats?₁ stats?₂ := by
  refine rel_imp h fun hadd => ?_
  obtain ⟨hcount, hbytes, heq⟩ := ArenaStats.addReservation_eq_some_iff.mp hadd
  exact {
    peak_eq := by
      rw [heq]
      exact UInt64.toNat_max _ _
    reservations_eq := by rw [hcount, if_neg hpos]
    cumulative_eq := by rw [hbytes, Nat.one_mul]
    rejected_eq := by rw [heq] }

/-- A layer with room is one layer more: a checkpoint is counted, its workspace is reserved and
counted by `BuildContext.reserve_of_fits`, and its time passes. -/
theorem advanced_passLayer (hroom : b.HasRoom c.arena) (horder : c.arena.InOrder)
    (layer : Layer) : b.Advanced 1 c (b.passLayer layer c) := by
  by_cases hzero : b.layerWorkspace = 0
  · rw [passLayer, holdWorkspace, if_pos hzero]
    -- only the checkpoint is counted and time passes
    exact {
      checkpoints_eq := rfl
      clock_eq := by rw [Nat.one_mul]; rfl
      signal_eq := rfl
      budget_eq := rfl
      device_eq := rfl
      memory_eq := rfl
      live_eq := by rw [hzero]; rfl
      stats_rel := rel_statsAdvanced_of_zero (.inr hzero) horder
      arena_eq := fun _ => rfl }
  · obtain ⟨hfits, hcount⟩ := hroom.resolve_left hzero
    obtain ⟨stats?, hcounts, hr⟩ := BuildContext.reserve_of_fits (c := c.checkpoint.1) hzero hfits
      hcount s!"{layer.name}:workspace"
    rw [passLayer, holdWorkspace, if_neg hzero, hr]
    exact {
      checkpoints_eq := rfl
      clock_eq := by rw [Nat.one_mul]; rfl
      signal_eq := rfl
      budget_eq := rfl
      device_eq := rfl
      memory_eq := rfl
      live_eq := by
        rw [Nat.one_mul]
        exact Arena.toNat_liveBytes_add hfits
      stats_rel := rel_statsAdvanced_of_counts hzero hcounts
      arena_eq := fun h => absurd h hzero }

/-- The workspaces are granted within the budget, and each is of one byte at least, so an arena in
order is in order after any number of layers. A workspace of no bytes is not asked for. -/
theorem Advanced.inOrder (h : b.Advanced 1 c c') (hroom : b.HasRoom c.arena)
    (horder : c.arena.InOrder) : c'.arena.InOrder := by
  have hrel := h.stats_rel
  refine ⟨?_, fun stats' hstats' => ?_, fun stats' hstats' => ?_⟩
  · rw [h.memory_eq, h.live_eq, Nat.one_mul]
    rcases hroom with hzero | ⟨hfits, -⟩
    · rw [hzero]
      exact horder.live_le
    · exact of_decide_eq_true hfits
  · rw [Option.mem_def.mp hstats'] at hrel
    obtain ⟨stats, -, hadvanced⟩ := exists_left_of_rel hrel
    exact hadvanced.peak_eq.symm ▸ le_max_right _ _
  · rw [Option.mem_def.mp hstats'] at hrel
    obtain ⟨stats, hstats, hadvanced⟩ := exists_left_of_rel hrel
    have hgrants := horder.grants_le stats hstats
    rw [hadvanced.reservations_eq, hadvanced.cumulative_eq, Nat.one_mul]
    split
    · omega
    · next hpos =>
      have hsize : b.layerWorkspace.toNat ≠ 0 := fun hzero => hpos (UInt64.toNat_inj.mp hzero)
      omega

/-! A layer is passed, or it ends the work. -/

section Layer

variable (hcheck : s.context.checkpoint.2 = none) (rest : List Layer)

include hcheck

/-- After the checkpoint of a layer that nothing stops, its kind is looked at, and then its
workspace is asked for. -/
theorem run_layersWork_cons (next : Work) (layer : Layer) :
    (b.layersWork next (layer :: rest)).run s =
      (if b.rejected.contains layer.kind then
          .fail (.layerRejected layer.name s!"no converter for '{layer.kind}'")
        else b.withWorkspace layer (.pause b.layerDelay (b.layersWork next rest))).run
        { s with context := s.context.checkpoint.1 } := by
  rw [layersWork, afterCheckpoint, Work.run, hcheck]

/-- A layer that can be built and has room is passed, and the rest of the layers go on from
`passLayer`. -/
theorem run_layersWork_of_room (hkind : b.rejected.contains layer.kind = false)
    (hroom : b.HasRoom s.context.arena) :
    (b.layersWork next (layer :: rest)).run s =
      (b.layersWork next rest).run { s with context := b.passLayer layer s.context } := by
  rw [run_layersWork_cons hcheck, hkind, if_neg Bool.false_ne_true, withWorkspace, passLayer,
    holdWorkspace]
  split
  · rfl
  · next hpos =>
    obtain ⟨hfits, hcount⟩ := hroom.resolve_left hpos
    obtain ⟨_, -, hr⟩ := BuildContext.reserve_of_fits (c := s.context.checkpoint.1) hpos hfits
      hcount s!"{layer.name}:workspace"
    rw [Work.run_reserve, hr]
    rfl

/-- A layer that cannot be built ends the work, with the `Obstacle` that it is in place 0. The cases
are the kind, and then the three answers of `Arena.Answers` to the request for its workspace. -/
theorem exists_obstacle (horder : s.context.arena.InOrder)
    (h : b.rejected.contains layer.kind = false → ¬ b.HasRoom s.context.arena) :
    ∃ ending, b.Obstacle s.context.arena 0 layer ending ∧
      ((b.layersWork next (layer :: rest)).run s).2 = ending := by
  rw [run_layersWork_cons hcheck]
  cases hkind : b.rejected.contains layer.kind with
  | true => exact ⟨_, .rejected hkind, rfl⟩
  | false =>
    obtain ⟨hpos, hroom⟩ := not_or.mp (h hkind)
    rw [if_neg Bool.false_ne_true, withWorkspace, if_neg hpos, Work.run_reserve]
    by_cases hcount : s.context.arena.CannotCount b.layerWorkspace
    · refine ⟨.crashed, ?_, ?_⟩
      · by_cases hfits : s.context.arena.fits b.layerWorkspace = true
        · have hover := (horder.cannotCount_iff hpos hfits).mp hcount
          refine .grantUncounted hkind hpos ?_ ?_
          · rw [Nat.zero_add, Nat.one_mul]
            exact of_decide_eq_true hfits
          · rwa [Nat.zero_add, Nat.one_mul]
        · obtain ⟨stats, hstats, hover⟩ := hcount
          rw [if_neg hfits, ArenaStats.addRejection_eq_none_iff] at hover
          refine .refusalUncounted hkind hpos ?_ hstats hover
          rw [Nat.zero_add, Nat.one_mul]
          exact Nat.not_le.mp fun hle => hfits (decide_eq_true hle)
      · have hreply := (Arena.reserve_eq_crashed_iff s!"{layer.name}:workspace").mpr ⟨hpos, hcount⟩
        rw [BuildContext.reserve_snd, BuildContext.checkpoint_arena, hreply]
        rfl
    · have hfull : ¬ s.context.arena.fits b.layerWorkspace = true := fun hfits =>
        hroom ⟨hfits, hcount⟩
      obtain ⟨available, hleft, hrefusal⟩ := Arena.exists_free horder.live_le
      have hless : available < b.layerWorkspace := by
        have hover : ¬ _ ≤ _ := fun hfits => hfull (decide_eq_true hfits)
        exact UInt64.lt_iff_toNat_lt.mpr (by omega)
      have hcounted : ∀ stats ∈ s.context.arena.stats?, stats.rejected.toNat + 1 < UInt64.size := by
        intro stats hstats
        refine Nat.not_le.mp fun hover => hcount ⟨stats, hstats, ?_⟩
        rwa [if_neg hfull, ArenaStats.addRejection_eq_none_iff]
      refine ⟨_, .exhausted hkind hless (by omega) hcounted, ?_⟩
      obtain ⟨_, -, hr⟩ :=
        Arena.reserve_of_full hpos hfull hcount s!"{layer.name}:workspace"
      rw [BuildContext.reserve_snd, BuildContext.checkpoint_arena, hr]
      show Ending.failure (.outOfMemory (s.context.arena.refusal _ _)) = _
      rw [hrefusal]

end Layer

/-! ## One layer after another -/

/-- A layer has no room in an arena in order exactly if it takes a workspace which does not fit, or
which overflows the count of bytes. -/
theorem not_hasRoom_iff (horder : a.InOrder) : ¬ b.HasRoom a ↔
    b.layerWorkspace ≠ 0 ∧
      (a.budget.ceiling.toNat < a.liveBytes.toNat + b.layerWorkspace.toNat ∨
        Overflows a b.layerWorkspace.toNat) := by
  rw [HasRoom, not_or, not_and_or, not_not]
  refine and_congr_right fun hpos => ?_
  by_cases hfits : a.fits b.layerWorkspace = true
  · rw [horder.cannotCount_iff hpos hfits, Overflows]
    have hle : a.liveBytes.toNat + b.layerWorkspace.toNat ≤ a.budget.ceiling.toNat :=
      of_decide_eq_true hfits
    simp [hfits, Nat.not_lt.mpr hle]
  · have hover : a.budget.ceiling.toNat < a.liveBytes.toNat + b.layerWorkspace.toNat :=
      Nat.not_le.mp fun hle => hfits (decide_eq_true hle)
    exact iff_of_true (.inl hfits) (.inl hover)

/-- The first layer is `BlockedAt` its place exactly if its kind is rejected or it has no room. -/
theorem blockedAt_zero_iff {rest : List Layer} (horder : a.InOrder) :
    b.BlockedAt a (layer :: rest) 0 ↔
      b.rejected.contains layer.kind = true ∨ ¬ b.HasRoom a := by
  rw [not_hasRoom_iff horder]
  simp [BlockedAt]

/-- The bytes of the first layers, and those of one more. -/
theorem succ_mul_eq (i bytes : Nat) : (i + 1 + 1) * bytes = 1 * bytes + (i + 1) * bytes := by
  rw [Nat.add_mul (i + 1), Nat.add_comm]

/-- Once a layer is built, the bytes of the others have so much less room in the count. -/
theorem Advanced.overflows_iff (h : b.Advanced 1 c c') (bytes : Nat) :
    Overflows c.arena (1 * b.layerWorkspace.toNat + bytes) ↔ Overflows c'.arena bytes := by
  have hrel := h.stats_rel
  unfold Overflows
  generalize c.arena.stats? = before at hrel ⊢
  generalize c'.arena.stats? = after at hrel ⊢
  cases hrel with
  | none => simp
  | some hstats => simp [hstats.cumulative_eq, Nat.add_assoc]

/-- Once a layer is built, what stands in the way of the others is one place nearer. -/
theorem Advanced.blockedAt_succ_iff {rest : List Layer} (h : b.Advanced 1 c c') (i : Nat) :
    b.BlockedAt c.arena (layer :: rest) (i + 1) ↔ b.BlockedAt c'.arena rest i := by
  unfold BlockedAt
  rw [h.memory_eq, h.live_eq, succ_mul_eq, h.overflows_iff, Nat.add_assoc]
  rfl

/-- The obstacle that a layer is after one more has been built is the one that it was before, one
place further on: what that one has reserved is counted in its place. -/
theorem Advanced.obstacle_succ {i : Nat} {ending : Ending} (h : b.Advanced 1 c c')
    (ho : b.Obstacle c'.arena i layer ending) : b.Obstacle c.arena (i + 1) layer ending := by
  have hrel := h.stats_rel
  cases ho with
  | rejected hkind => exact .rejected hkind
  | @exhausted available hkind hless hleft hcounted =>
    rw [h.memory_eq, h.live_eq] at hleft
    rw [h.device_eq, h.memory_eq]
    refine .exhausted hkind hless ?_ fun stats hstats => ?_
    · rw [← hleft, Nat.add_mul]
      omega
    · rw [Option.mem_def.mp hstats] at hrel
      obtain ⟨stats', hstats', hadvanced⟩ := exists_right_of_rel hrel
      exact hadvanced.rejected_eq ▸ hcounted stats' hstats'
  | @refusalUncounted stats' hkind hpos hfull hstats' hover =>
    rw [h.memory_eq, h.live_eq, Nat.add_assoc, ← succ_mul_eq] at hfull
    rw [hstats'] at hrel
    obtain ⟨stats, hstats, hadvanced⟩ := exists_left_of_rel hrel
    exact .refusalUncounted hkind hpos hfull hstats (hadvanced.rejected_eq ▸ hover)
  | grantUncounted hkind hpos hfits hover =>
    rw [h.memory_eq, h.live_eq, Nat.add_assoc, ← succ_mul_eq] at hfits
    refine .grantUncounted hkind hpos hfits ?_
    rw [succ_mul_eq]
    exact (h.overflows_iff _).mpr hover

/-- If the first layer is passed, the first layer that is blocked is the first of the rest that is.
-/
theorem Advanced.isLeast_succ {rest : List Layer} {i : Nat} (h : b.Advanced 1 c c')
    (hpasses : ¬ b.BlockedAt c.arena (layer :: rest) 0)
    (hleast : IsLeast {i | b.BlockedAt c'.arena rest i} i) :
    IsLeast {i | b.BlockedAt c.arena (layer :: rest) i} (i + 1) := by
  refine ⟨(h.blockedAt_succ_iff i).mpr hleast.1, fun j hj => ?_⟩
  cases j with
  | zero => exact absurd hj hpasses
  | succ j => exact Nat.succ_le_succ (hleast.2 ((h.blockedAt_succ_iff j).mp hj))

/-- Either all layers are built and the work goes on, or the first layer that cannot be built ends
it. By induction on the layers; that the arena is `Arena.InOrder` and that the budget lasts are
carried along. -/
theorem run_layersWork (next : Work) (layers : List Layer) (s : BuildState)
    (hbudget : s.context.budget.check s.context.signal
      (s.context.clock + layers.length * b.layerDelay) = none)
    (horder : s.context.arena.InOrder) :
    (∃ c, b.Advanced layers.length s.context c ∧
        (∀ i, ¬ b.BlockedAt s.context.arena layers i) ∧
        (b.layersWork next layers).run s = next.run { s with context := c }) ∨
      ∃ i layer ending, IsLeast {i | b.BlockedAt s.context.arena layers i} i ∧
        layers[i]? = some layer ∧ b.Obstacle s.context.arena i layer ending ∧
        ((b.layersWork next layers).run s).2 = ending := by
  induction layers generalizing s with
  | nil =>
    refine Or.inl ⟨s.context, advanced_zero horder, ?_, rfl⟩
    rintro i ⟨layer, hlayer, -⟩
    cases hlayer
  | cons layer rest ih =>
    have hcheck : s.context.checkpoint.2 = none :=
      BuildBudget.check_eq_none_of_le hbudget (Nat.le_add_right _ _)
    by_cases hblocked : b.BlockedAt s.context.arena (layer :: rest) 0
    · -- the first layer is the least that is blocked
      have hfails : b.rejected.contains layer.kind = false → ¬ b.HasRoom s.context.arena := by
        intro hkind
        exact ((blockedAt_zero_iff horder).mp hblocked).resolve_left
          (by rw [hkind]; exact Bool.false_ne_true)
      obtain ⟨ending, hobstacle, hrun⟩ : ∃ ending, b.Obstacle s.context.arena 0 layer ending ∧
          ((b.layersWork next (layer :: rest)).run s).2 = ending :=
        exists_obstacle hcheck rest horder hfails
      exact Or.inr ⟨0, layer, ending, ⟨hblocked, fun _ _ => Nat.zero_le _⟩, rfl, hobstacle, hrun⟩
    · obtain ⟨hkind, hroom⟩ := not_or.mp (mt (blockedAt_zero_iff horder).mpr hblocked)
      rw [Bool.not_eq_true] at hkind
      rw [not_not] at hroom
      have hpass := advanced_passLayer hroom horder layer
      have hrun : (b.layersWork next (layer :: rest)).run s =
          (b.layersWork next rest).run { s with context := b.passLayer layer s.context } :=
        run_layersWork_of_room hcheck rest hkind hroom
      have hbudget' : (b.passLayer layer s.context).budget.check
          (b.passLayer layer s.context).signal
          ((b.passLayer layer s.context).clock + rest.length * b.layerDelay) = none := by
        rw [hpass.budget_eq, hpass.signal_eq, hpass.clock_eq, Nat.add_assoc, ← Nat.add_mul,
          Nat.add_comm 1]
        exact hbudget
      rw [hrun]
      rcases ih { s with context := b.passLayer layer s.context } hbudget'
          (hpass.inOrder hroom horder) with
        ⟨c, hadvanced, hfree, hnext⟩ | ⟨i, layer', ending, hleast, hlayer, hobstacle, hfails⟩
      · refine Or.inl ⟨c, ?_, fun i => ?_, hnext⟩
        · rw [List.length_cons, Nat.add_comm]
          exact hpass.trans hadvanced
        · cases i with
          | zero => exact hblocked
          | succ i => exact mt (hpass.blockedAt_succ_iff i).mp (hfree i)
      · exact Or.inr ⟨i + 1, layer', ending, hpass.isLeast_succ hblocked hleast, hlayer,
          hpass.obstacle_succ hobstacle, hfails⟩

/-- More bytes overflow what fewer bytes overflow. -/
theorem Overflows.mono {bytes bytes' : Nat} (h : Overflows a bytes) (hle : bytes ≤ bytes') :
    Overflows a bytes' := by
  obtain ⟨stats, hstats, hover⟩ := h
  exact ⟨stats, hstats, hover.trans (Nat.add_le_add_left hle _)⟩

/-- No layer is blocked when all kinds can be built and the workspaces of all layers fit together
and can be counted. -/
theorem forall_not_blockedAt_iff (hle : a.liveBytes.toNat ≤ a.budget.ceiling.toNat) :
    (∀ i, ¬ b.BlockedAt a layers i) ↔
      (∀ layer ∈ layers, b.rejected.contains layer.kind = false) ∧
        (b.layerWorkspace = 0 ∨
          a.liveBytes.toNat + layers.length * b.layerWorkspace.toNat ≤ a.budget.ceiling.toNat ∧
            ¬ Overflows a (layers.length * b.layerWorkspace.toNat)) := by
  constructor
  · intro hfree
    refine ⟨fun layer hmem => ?_, or_iff_not_imp_left.mpr fun hpos => ?_⟩
    · obtain ⟨i, hlayer⟩ := List.getElem?_of_mem hmem
      exact Bool.not_eq_true _ ▸ fun hkind => hfree i ⟨layer, hlayer, Or.inl hkind⟩
    · rcases Nat.eq_zero_or_pos layers.length with hnone | hsome
      · rw [hnone, Nat.zero_mul, Nat.add_zero]
        refine ⟨hle, ?_⟩
        rintro ⟨stats, -, hover⟩
        exact absurd stats.cumulativeBytes.toNat_lt (Nat.not_lt.mpr hover)
      · -- the last layer is blocked at the latest
        have hlast := List.getElem?_eq_getElem (Nat.sub_lt hsome Nat.one_pos)
        rw [← not_lt, ← not_or]
        intro hover
        refine hfree (layers.length - 1) ⟨_, hlast, Or.inr ⟨hpos, ?_⟩⟩
        rwa [Nat.sub_add_cancel hsome]
  · rintro ⟨hkinds, hroom⟩ i ⟨layer, hlayer, hkind | ⟨hpos, hover⟩⟩
    · rw [hkinds layer (List.mem_of_getElem? hlayer)] at hkind
      cases hkind
    · have hlt : i < layers.length := (List.getElem?_eq_some_iff.mp hlayer).1
      have hmul : (i + 1) * b.layerWorkspace.toNat ≤ layers.length * b.layerWorkspace.toNat :=
        Nat.mul_le_mul_right _ hlt
      obtain ⟨hall, hcounted⟩ := hroom.resolve_left hpos
      rcases hover with hover | hover
      · omega
      · exact hcounted (hover.mono hmul)

/-! ## The whole network -/

/-- Calibrating needs nothing but the calibrator, and it does not fail. -/
theorem run_calibrationWork (o : EngineOptions) (image : Option String → Bytes) (s : BuildState) :
    ∃ bytes calibrator, (calibrationWork o fun calibration => .done (image calibration)).run s =
      ({ s with calibrator }, .engine bytes) := by
  unfold calibrationWork
  split
  · rw [Work.run]
    cases s.calibrator.bind Calibrator.readCache with
    | some content => exact ⟨_, _, rfl⟩
    | none =>
      show ∃ bytes calibrator, Work.run (.drainBatches _) s = _
      rw [Work.run]
      cases s.calibrator <;> exact ⟨_, _, rfl⟩
  · exact ⟨_, _, rfl⟩

/-- Whatever was done in the arena before, a network is built exactly when all its kinds can be
built, the workspaces of all layers fit, and they can be counted beside the bytes that were ever
granted. Else the first layer that is `BlockedAt` its place ends the work, in the way that its
`Obstacle` says: with its name and the reason, or with a breakdown if something cannot be counted.
What a network that is built leaves is told by the number of its layers. -/
theorem referenceWork_fails_exactly (b : ReferenceBackend) (n : Network) (o : EngineOptions)
    (device : String) (memory : MemoryBudget) (history : List Ledger.Step) (c : BuildContext)
    (calibrator : Option Calibrator) (journal : List Snapshot)
    (harena : c.arena = ((Ledger.new device memory).run history).arena)
    (hbudget : c.budget.check c.signal (c.clock + n.layers.length * b.layerDelay) = none) :
    let live := c.arena.liveBytes.toNat
    let count := n.layers.length
    let workspaces := count * b.layerWorkspace.toNat
    let result := (b.work n o).run ⟨c, calibrator, journal⟩
    let after := result.1.context
    ((∃ bytes, result.2 = .engine bytes) ↔
        (∀ layer ∈ n.layers, b.rejected.contains layer.kind = false) ∧
          (b.layerWorkspace = 0 ∨
            live + workspaces ≤ memory.ceiling.toNat ∧ ¬ Overflows c.arena workspaces)) ∧
      match result.2 with
      | .engine _ =>
        after.checkpoints = c.checkpoints + count + 1 ∧
          if b.layerWorkspace = 0 then after.arena = c.arena
          else
            Option.Rel (fun stats stats' =>
                stats'.reservations.toNat = stats.reservations.toNat + count ∧
                  stats'.peakLiveBytes.toNat = max stats.peakLiveBytes.toNat (live + workspaces))
              c.arena.stats? after.arena.stats?
      | stopped =>
        ∃ i layer, IsLeast {i | b.BlockedAt c.arena n.layers i} i ∧ n.layers[i]? = some layer ∧
          b.Obstacle c.arena i layer stopped := by
  intro live count workspaces result after
  have hmemory : c.arena.budget = memory := by
    rw [harena]
    exact Ledger.budget_run (Ledger.new device memory) history
  have horder : c.arena.InOrder := harena ▸ Ledger.inOrder_run device memory history
  rw [← hmemory, ← forall_not_blockedAt_iff horder.live_le]
  rcases run_layersWork (b := b) (afterCheckpoint (calibrationWork o fun calibration =>
      .done (Utf8.encode (engineImage n o calibration).compact))) n.layers
      ⟨c, calibrator, journal⟩ hbudget horder with
    ⟨c', hadvanced, hfree, hrun⟩ | ⟨i, layer, ending, hleast, hlayer, hobstacle, hrun⟩
  · -- all layers are built, and the last checkpoint is passed too
    have hcheck : c'.checkpoint.2 = none := by
      show c'.budget.check c'.signal c'.clock = none
      rw [hadvanced.budget_eq, hadvanced.signal_eq, hadvanced.clock_eq]
      exact hbudget
    obtain ⟨bytes, calibrator', hlast⟩ := run_calibrationWork o
      (fun calibration => Utf8.encode (engineImage n o calibration).compact)
      ⟨c'.checkpoint.1, calibrator, journal⟩
    have hresult : result = (⟨c'.checkpoint.1, calibrator', journal⟩, .engine bytes) := by
      show (b.work n o).run ⟨c, calibrator, journal⟩ = _
      rw [work, hrun, afterCheckpoint, Work.run, hcheck]
      exact hlast
    have hending : result.2 = .engine bytes := by rw [hresult]
    have hafter : after = c'.checkpoint.1 := by
      show result.1.context = _
      rw [hresult]
    rw [hending, hafter]
    refine ⟨iff_of_true ⟨bytes, rfl⟩ hfree, ?_, ?_⟩
    · show c'.checkpoints + 1 = _
      rw [hadvanced.checkpoints_eq]
    · split
      · next hzero => exact hadvanced.arena_eq hzero
      · next hpos =>
        refine rel_imp hadvanced.stats_rel fun hstats => ⟨?_, ?_⟩
        · rw [hstats.reservations_eq, if_neg hpos]
        · rw [hstats.peak_eq, hadvanced.live_eq]
  · have hresult : result.2 = ending := hrun
    have hstopped : ∀ bytes, ending ≠ .engine bytes := by
      rintro bytes rfl
      cases hobstacle
    rw [hresult]
    refine ⟨iff_of_false ?_ fun hfree => hfree i hleast.1, ?_⟩
    · rintro ⟨bytes, hengine⟩
      exact hstopped bytes hengine
    · cases ending with
      | engine bytes => exact absurd rfl (hstopped bytes)
      | failure e => exact ⟨i, layer, hleast, hlayer, hobstacle⟩
      | crashed => exact ⟨i, layer, hleast, hlayer, hobstacle⟩

/-! ## An instance

Three layers of ten milliseconds each, with a deadline after forty. Of three hundred bytes seventy
are held by others, so the workspaces of three layers fit if they take fifty bytes each, and the
third does not if they take a hundred. -/

/-- A context with a deadline after forty milliseconds, in an arena of three hundred bytes of which
seventy are held. -/
def deadlineContext : BuildContext :=
  { region := 0
    arena := ((Ledger.new "gpu0" (.limited 300)).run
      [.reserve 30 "other", .reserve 70 "other", .release 0]).arena
    budget := ⟨some 40, false, true⟩
    held := []
    checkpoints := 0
    signal := false
    clock := 0 }

/-- A network of three layers of different kinds. -/
def threeLayers : Network :=
  ⟨0, "three", [⟨"a", "conv", ["x"], ["t"]⟩, ⟨"b", "relu", ["t"], ["u"]⟩,
    ⟨"c", "grid", ["u"], ["y"]⟩], [], ["y"]⟩

/-- With fifty bytes for each layer the network is built; with a hundred the third layer does not
fit, and with its kind rejected it is that. -/
theorem referenceWork_fails_exactly_third :
    let modest : ReferenceBackend := ⟨.empty, true, 50, 10⟩
    let greedy : ReferenceBackend := ⟨.empty, true, 100, 10⟩
    let picky : ReferenceBackend := ⟨.ofList ["grid"], true, 100, 10⟩
    let outcome (b : ReferenceBackend) :=
      (b.work threeLayers (.ofSettings skippingSettings)).run ⟨deadlineContext, none, []⟩
    (∃ bytes, (outcome modest).2 = .engine bytes) ∧
      (∃ i layer, IsLeast {i | greedy.BlockedAt deadlineContext.arena threeLayers.layers i} i ∧
        threeLayers.layers[i]? = some layer ∧
        greedy.Obstacle deadlineContext.arena i layer
          (.failure (.outOfMemory (.outOfMemory "gpu0" "c:workspace" 100 30 300)))) ∧
      ∃ i layer, IsLeast {i | picky.BlockedAt deadlineContext.arena threeLayers.layers i} i ∧
        threeLayers.layers[i]? = some layer ∧
        picky.Obstacle deadlineContext.arena i layer
          (.failure (.layerRejected "c" "no converter for 'grid'")) := by
  intro modest greedy picky outcome
  obtain ⟨hmodest, -⟩ := referenceWork_fails_exactly modest threeLayers
    (.ofSettings skippingSettings) "gpu0" (.limited 300) _ deadlineContext none [] rfl rfl
  obtain ⟨-, hgreedy⟩ := referenceWork_fails_exactly greedy threeLayers
    (.ofSettings skippingSettings) "gpu0" (.limited 300) _ deadlineContext none [] rfl rfl
  obtain ⟨-, hpicky⟩ := referenceWork_fails_exactly picky threeLayers
    (.ofSettings skippingSettings) "gpu0" (.limited 300) _ deadlineContext none [] rfl rfl
  have hexhausted : (outcome greedy).2 =
      .failure (.outOfMemory (.outOfMemory "gpu0" "c:workspace" 100 30 300)) := by decide
  have hrejected : (outcome picky).2 =
      .failure (.layerRejected "c" "no converter for 'grid'") := by decide
  rw [hexhausted] at hgreedy
  rw [hrejected] at hpicky
  have hmodestly : ¬ Overflows deadlineContext.arena (3 * modest.layerWorkspace.toNat) := by
    rintro ⟨stats, hstats, hover⟩
    obtain rfl := Option.some.inj hstats
    exact absurd hover (by decide)
  exact ⟨hmodest.mpr ⟨by decide, Or.inr ⟨by decide, hmodestly⟩⟩, hgreedy, hpicky⟩

/-- The workspace of the only layer fits, and its kind can be built. But half of all that can be
counted was reserved before and given back, so the other half cannot be counted. -/
theorem referenceWork_breaks_down :
    let half : UInt64 := 0x8000000000000000
    let b : ReferenceBackend := ⟨.empty, true, half, 0⟩
    let n : Network := ⟨0, "one", [⟨"a", "conv", ["x"], ["y"]⟩], [], ["y"]⟩
    let arena := ((Ledger.new "gpu0" .unlimited).run [.reserve half "a", .release 0]).arena
    (∀ layer ∈ n.layers, b.rejected.contains layer.kind = false) ∧
      arena.liveBytes.toNat + n.layers.length * b.layerWorkspace.toNat ≤
        arena.budget.ceiling.toNat ∧
      ((b.work n (.ofSettings skippingSettings)).run
        ⟨.new 0 arena .unbounded false, none, []⟩).2 = .crashed := by
  decide

end ReferenceBackend

end HybridCompile
