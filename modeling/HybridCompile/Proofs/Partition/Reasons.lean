import HybridCompile.Proofs.Partition.Placement
import Mathlib.Data.List.Forall2

/-!
# HybridCompile — why an operator falls back

A run carries its reasons in a list of their own, which is appended to when runs are joined and
replaced when a run is demoted; nothing checks that the list keeps step with the operators. It does:
each operator of a general region has one reason there, and the reason is the one that holds of it.

* `Run.Explained` — a run whose reasons are those of its places. Joining and demoting keep it.
* `Objects`, `FallsBackFor` — the reasons that hold, said without runs.
* `carriesReasons_withFallback` — every region of a plan carries the reasons that hold.
-/

namespace HybridCompile

/-- Lists that go along item by item have items in the same places. Induction on the pair of lists.
-/
theorem exists_getElem?_of_forall₂ {α β : Type} {rel : α → β → Prop} {xs : List α} {ys : List β}
    {k : Nat} {x : α} (h : List.Forall₂ rel xs ys) (hk : xs[k]? = some x) :
    ∃ y, ys[k]? = some y ∧ rel x y := by
  induction h generalizing k with
  | nil => cases hk
  | cons hrel _ ih =>
    cases k with
    | zero =>
      cases hk
      exact ⟨_, rfl, hrel⟩
    | succ k => exact ih hk

/-- A list goes along with one item repeated if each of its own goes with that. Induction on the
list. -/
theorem forall₂_replicate {α β : Type} {rel : α → β → Prop} {xs : List α} {y : β}
    (h : ∀ x ∈ xs, rel x y) : List.Forall₂ rel xs (List.replicate xs.length y) := by
  induction xs with
  | nil => exact .nil
  | cons x rest ih =>
    obtain ⟨hx, hrest⟩ := List.forall_mem_cons.mp h
    exact .cons hx (ih hrest)

namespace Run

variable {why : Nat → FallbackReason → Prop} {a b place minRegionSize : Nat} {r next : Run}
  {runs : List Run}

/-- A general run has one reason for each of its places, in order; a run for the accelerator has
none. What a reason has to do with its place is left open as `why`, so that one invariant serves for
`Because` and for whatever else a reason is to mean. -/
structure Explained (why : Nat → FallbackReason → Prop) (r : Run) : Prop where
  accelerator : r.target = .accelerator → r.reasons = []
  general : r.target = .general → List.Forall₂ why (List.range' r.start r.length) r.reasons

theorem Explained.exists_reason {k : Nat} (h : r.Explained why) (hgeneral : r.target = .general)
    (hk : (List.range' r.start r.length)[k]? = some place) :
    ∃ reason, r.reasons[k]? = some reason ∧ why place reason :=
  exists_getElem?_of_forall₂ (h.general hgeneral) hk

/-! ## Joining -/

/-- The reasons of two runs in a row are those of the places of both: the places of the second go on
where those of the first end. -/
theorem Explained.append (hstart : next.start = r.stop) (hlt : r.start < r.stop)
    (hnextlt : next.start < next.stop) (htarget : next.target = r.target) (h : r.Explained why)
    (hnext : next.Explained why) :
    Explained why { r with stop := next.stop, reasons := r.reasons ++ next.reasons } where
  accelerator hacc := by
    show r.reasons ++ next.reasons = []
    rw [h.accelerator hacc, hnext.accelerator (htarget.trans hacc), List.append_nil]
  general hgeneral := by
    show List.Forall₂ why (List.range' r.start (next.stop - r.start)) (r.reasons ++ next.reasons)
    have hlength := start_add_length hlt.le
    have hnextlength := start_add_length hnextlt.le
    have hsplit : next.stop - r.start = r.length + next.length := by omega
    rw [hsplit, ← List.range'_append_1, hlength, ← hstart]
    exact List.rel_append (h.general hgeneral) (hnext.general (htarget.trans hgeneral))

/-- Joining a run with a tiling keeps all runs explained, as `Explained.append` says of the two that
become one. -/
theorem explained_join (hlt : r.start < r.stop) (htiles : Tiles r.stop runs b)
    (h : r.Explained why) (hruns : ∀ r' ∈ runs, r'.Explained why) :
    ∀ r' ∈ join r runs, r'.Explained why := by
  cases htiles with
  | nil =>
    intro r' hr'
    rw [List.mem_singleton.mp hr']
    exact h
  | @cons _ _ next rest hstart hnextlt _ =>
    obtain ⟨hnext, hrest⟩ := List.forall_mem_cons.mp hruns
    rw [join_cons]
    split
    · next htarget =>
      exact List.forall_mem_cons.mpr ⟨h.append hstart hlt hnextlt htarget hnext, hrest⟩
    · exact List.forall_mem_cons.mpr ⟨h, hruns⟩

/-- Joining all neighbours keeps all runs explained. Induction on the tiling, each run by
`explained_join`. -/
theorem Tiles.explained_coalesce (htiles : Tiles a runs b) (h : ∀ r ∈ runs, r.Explained why) :
    ∀ r ∈ Run.coalesce runs, r.Explained why := by
  induction htiles with
  | nil => exact h
  | cons hstart hlt hrest ih =>
    obtain ⟨hfirst, hothers⟩ := List.forall_mem_cons.mp h
    exact explained_join hlt hrest.coalesce hfirst (ih hothers)

/-! ## Single operators and demotion -/

/-- A run of one operator is explained by the operator's own verdict. Induction on the verdicts,
over all places to begin with. -/
theorem explained_singles (start : Nat) (verdicts : List (Option FallbackReason))
    (h : ∀ k reason, verdicts[k]? = some (some reason) → why (start + k) reason) :
    ∀ r ∈ singles start verdicts, r.Explained why := by
  induction verdicts generalizing start with
  | nil =>
    intro r hr
    cases hr
  | cons v rest ih =>
    refine List.forall_mem_cons.mpr ⟨?_, ih (start + 1) fun k reason hk => ?_⟩
    · cases v with
      | none => exact ⟨fun _ => rfl, fun hgeneral => (by cases hgeneral)⟩
      | some reason =>
        refine ⟨fun hacc => (by cases hacc), fun _ => ?_⟩
        show List.Forall₂ why (List.range' start (start + 1 - start)) [reason]
        rw [Nat.add_sub_cancel_left]
        exact .cons (h 0 reason rfl) .nil
    · rw [Nat.add_right_comm]
      exact h (k + 1) reason hk

/-- A run that is demoted gets one reason for all of its places, and the others keep theirs. That
the one reason holds of each place is the hypothesis `hshort`. -/
theorem Explained.demote (h : r.Explained why)
    (hshort : r.target = .accelerator → r.length < minRegionSize → ∀ place, r.Covers place →
      why place (.belowMinRegionSize r.length minRegionSize)) :
    (demote minRegionSize r).Explained why := by
  unfold Run.demote
  split
  · next hdemoted =>
    refine ⟨fun hacc => (by cases hacc), fun _ => ?_⟩
    have hplaces : ∀ place ∈ List.range' r.start r.length,
        why place (.belowMinRegionSize r.length minRegionSize) := by
      intro place hplace
      exact hshort hdemoted.1 hdemoted.2 place (mem_range'_iff.mp hplace)
    have hreasons := forall₂_replicate hplaces
    rwa [List.length_range'] at hreasons
  · exact h

/-! ## Both passes -/

/-- Why a place is general after both passes: its operator was rejected, or it was not and the block
around it is too short. -/
inductive Because (minRegionSize : Nat) (verdicts : List (Option FallbackReason)) (place : Nat) :
    FallbackReason → Prop where
  | rejected {reason : FallbackReason} (h : verdicts[place]? = some (some reason)) :
      Because minRegionSize verdicts place reason
  | short {start stop : Nat}
      (hblock : MaximalBlock (fun i => verdicts[i]? = some none) verdicts.length start stop)
      (hle : start ≤ place) (hlt : place < stop) (hshort : stop - start < minRegionSize) :
      Because minRegionSize verdicts place (.belowMinRegionSize (stop - start) minRegionSize)

/-- In a block of eligible operators none is rejected. -/
theorem ne_rejected_of_mem_block {verdicts : List (Option FallbackReason)} {reason : FallbackReason}
    {n start stop : Nat} (hblock : MaximalBlock (fun i => verdicts[i]? = some none) n start stop)
    (hle : start ≤ place) (hlt : place < stop) : verdicts[place]? ≠ some (some reason) := by
  intro hrejected
  have heligible := hblock.holds place hle hlt
  rw [hrejected] at heligible
  cases heligible

theorem Because.eq_of_rejected {verdicts : List (Option FallbackReason)}
    {reason reason' : FallbackReason} (h : Because minRegionSize verdicts place reason)
    (hrejected : verdicts[place]? = some (some reason')) : reason = reason' := by
  cases h with
  | rejected h =>
    rw [h] at hrejected
    cases hrejected
    rfl
  | short hblock hle hlt _ => exact absurd hrejected (ne_rejected_of_mem_block hblock hle hlt)

theorem Because.lt {verdicts : List (Option FallbackReason)} {reason : FallbackReason}
    (h : Because minRegionSize verdicts place reason) : place < verdicts.length := by
  cases h with
  | rejected h => exact (List.getElem?_eq_some_iff.mp h).1
  | short hblock _ hlt _ => exact Nat.lt_of_lt_of_le hlt hblock.stop_le

/-- A place is general for one reason at most: a rejected operator is in no block, and two blocks
around one place are one, by `MaximalBlock.eq_of_mem`. -/
theorem Because.unique {verdicts : List (Option FallbackReason)} {reason reason' : FallbackReason}
    (h : Because minRegionSize verdicts place reason)
    (h' : Because minRegionSize verdicts place reason') : reason = reason' := by
  cases h' with
  | rejected h' => exact h.eq_of_rejected h'
  | short hblock' hle' hlt' hshort' =>
    cases h with
    | rejected h => exact (Because.short hblock' hle' hlt' hshort').eq_of_rejected h |>.symm
    | short hblock hle hlt _ =>
      obtain ⟨rfl, rfl⟩ := hblock.eq_of_mem hblock' hle hlt hle' hlt'
      rfl

/-- After both passes all runs are explained by `Because`. A run that is demoted was a maximal block
before, by `maximalBlock_of_mem_joined`, so its length is the one that the reason tells. -/
theorem explained_ofVerdicts (minRegionSize : Nat) (verdicts : List (Option FallbackReason)) :
    ∀ r ∈ ofVerdicts minRegionSize verdicts, r.Explained (Because minRegionSize verdicts) := by
  have hsingles : ∀ r ∈ singles 0 verdicts, r.Explained (Because minRegionSize verdicts) := by
    apply explained_singles
    intro k reason hk
    rw [Nat.zero_add]
    exact .rejected hk
  have hjoined := (tiles_singles 0 verdicts).explained_coalesce hsingles
  apply (tiles_joined verdicts).map_demote.explained_coalesce
  rw [List.forall_mem_map]
  intro r hr
  apply (hjoined r hr).demote
  intro hacc hshort place hcovers
  exact .short (maximalBlock_of_mem_joined hr hacc) hcovers.1 hcovers.2 hshort

/-- A place is general exactly when there is a reason for it. One way is `explained_ofVerdicts`; the
other finds the run of the place, which is not for the accelerator, as its block would have to be
long enough and is too short. -/
theorem placesGeneral_ofVerdicts_iff {verdicts : List (Option FallbackReason)} :
    Places (ofVerdicts minRegionSize verdicts) .general place ↔
      ∃ reason, Because minRegionSize verdicts place reason := by
  constructor
  · rintro ⟨r, hr, hgeneral, hcovers⟩
    obtain ⟨_, hk⟩ := List.mem_iff_getElem?.mp (mem_range'_iff.mpr hcovers)
    obtain ⟨reason, _, hwhy⟩ :=
      (explained_ofVerdicts minRegionSize verdicts r hr).exists_reason hgeneral hk
    exact ⟨reason, hwhy⟩
  · rintro ⟨reason, hwhy⟩
    obtain ⟨r, hr, hcovers⟩ := (tiles_ofVerdicts minRegionSize verdicts).exists_covers
      (Nat.zero_le place) hwhy.lt
    cases htarget : r.target with
    | general => exact ⟨r, hr, htarget, hcovers⟩
    | accelerator =>
      -- then the block around the place is long enough
      obtain ⟨start, stop, hblock, hle, hlt, hsize⟩ :=
        (places_ofVerdicts_iff minRegionSize verdicts).mp ⟨r, hr, htarget, hcovers⟩
      cases hwhy with
      | rejected h => exact absurd h (ne_rejected_of_mem_block hblock hle hlt)
      | short hblock' hle' hlt' hshort =>
        obtain ⟨rfl, rfl⟩ := hblock.eq_of_mem hblock' hle hlt hle' hlt'
        exact absurd hsize (Nat.not_le.mpr hshort)

end Run

/-! ## Reasons that hold -/

/-- What speaks against running an operator on the accelerator. An excluded kind comes first, then
the outermost excluded module around the operator, and the oracle last. -/
inductive Objects (oracle : Oracle) (s : Settings) (op : Operator) : FallbackReason → Prop where
  | kind (hkind : op.kind ∈ s.fallback.excludedOperators.toList) :
      Objects oracle s op .excludedOperator
  | module {outer inner : List String} {module : String}
      (hkind : op.kind ∉ s.fallback.excludedOperators.toList)
      (hpath : op.modulePath = outer ++ module :: inner)
      (hmodule : module ∈ s.fallback.excludedModules.toList)
      (houter : ∀ m ∈ outer, m ∉ s.fallback.excludedModules.toList) :
      Objects oracle s op (.excludedModule module)
  | oracle {reason : String} (hkind : op.kind ∉ s.fallback.excludedOperators.toList)
      (hmodules : ∀ m ∈ op.modulePath, m ∉ s.fallback.excludedModules.toList)
      (hrejects : oracle.classify op s.lowering = .unsupported reason) :
      Objects oracle s op (.unsupported reason)

/-- Why the operator at a place falls back: something speaks against it, or it is eligible and the
longest stretch of eligible operators around it has fewer than the policy asks for. -/
inductive FallsBackFor (oracle : Oracle) (g : ValidGraph) (s : Settings) (place : Nat) :
    FallbackReason → Prop where
  | objection {op : Operator} {reason : FallbackReason} (hop : g.operators[place]? = some op)
      (hobjects : Objects oracle s op reason) : FallsBackFor oracle g s place reason
  | short {start stop : Nat}
      (hblock : MaximalBlock (EligibleAt oracle g s) g.operators.length start stop)
      (hle : start ≤ place) (hlt : place < stop)
      (hshort : stop - start < s.fallback.minRegionSize) :
      FallsBackFor oracle g s place
        (.belowMinRegionSize (stop - start) s.fallback.minRegionSize)

section Reasons

variable {oracle : Oracle} {g : ValidGraph} {s : Settings} {place : Nat}

/-- The function `verdict` gives a reason exactly if the reason `Objects` to the operator. The cases
are the order in which the kind, the modules and the oracle are asked. -/
theorem verdict_eq_some_iff {op : Operator} {reason : FallbackReason} :
    verdict oracle s.fallback s.lowering op = some reason ↔ Objects oracle s op reason := by
  constructor
  · intro h
    unfold verdict at h
    split at h
    · next hkind =>
      cases h
      exact .kind (FallbackPolicy.excludesOperator_iff.mp hkind)
    · next hkind =>
      have hkind' := mt FallbackPolicy.excludesOperator_iff.mpr hkind
      split at h
      · next module hfind =>
        cases h
        obtain ⟨hmodule, outer, inner, hpath, houter⟩ := List.find?_eq_some_iff_append.mp hfind
        refine .module hkind' hpath (NameSet.contains_iff.mp hmodule) fun m hm => ?_
        rw [← NameSet.contains_iff]
        simpa using houter m hm
      · next hfind =>
        split at h
        · cases h
        · next hrejects =>
          cases h
          refine .oracle hkind' (fun m hm => ?_) hrejects
          exact mt NameSet.contains_iff.mpr (List.find?_eq_none.mp hfind m hm)
  · intro h
    unfold verdict
    cases h with
    | kind hkind => exact if_pos (FallbackPolicy.excludesOperator_iff.mpr hkind)
    | @module outer inner module hkind hpath hmodule houter =>
      have hfind : op.modulePath.find? s.fallback.excludedModules.contains = some module := by
        refine List.find?_eq_some_iff_append.mpr
          ⟨NameSet.contains_iff.mpr hmodule, outer, inner, hpath, fun m hm => ?_⟩
        simpa using mt NameSet.contains_iff.mp (houter m hm)
      rw [if_neg (mt FallbackPolicy.excludesOperator_iff.mp hkind), hfind]
    | oracle hkind hmodules hrejects =>
      have hfind : op.modulePath.find? s.fallback.excludedModules.contains = none :=
        List.find?_eq_none.mpr fun m hm => mt NameSet.contains_iff.mp (hmodules m hm)
      rw [if_neg (mt FallbackPolicy.excludesOperator_iff.mp hkind), hfind]
      simp only [hrejects]

/-- What `Because` says of the verdicts is what `FallsBackFor` says of the graph: the verdicts are
those of its operators, and their maximal blocks are those of `EligibleAt`. -/
theorem because_iff_fallsBackFor {reason : FallbackReason} :
    Run.Because s.fallback.minRegionSize
      (g.operators.map (verdict oracle s.fallback s.lowering)) place reason ↔
        FallsBackFor oracle g s place reason := by
  have hblock_iff : ∀ start stop,
      MaximalBlock (fun i => (g.operators.map (verdict oracle s.fallback s.lowering))[i]? =
        some none) (g.operators.map (verdict oracle s.fallback s.lowering)).length start stop ↔
      MaximalBlock (EligibleAt oracle g s) g.operators.length start stop := by
    intro start stop
    rw [List.length_map]
    simp only [getElem?_verdicts_eq_none_iff]
  constructor
  · intro h
    cases h with
    | rejected h =>
      rw [List.getElem?_map, Option.map_eq_some_iff] at h
      obtain ⟨op, hop, hverdict⟩ := h
      exact .objection hop (verdict_eq_some_iff.mp hverdict)
    | short hblock hle hlt hshort =>
      exact .short ((hblock_iff _ _).mp hblock) hle hlt hshort
  · intro h
    cases h with
    | objection hop hobjects =>
      apply Run.Because.rejected
      rw [List.getElem?_map, hop, Option.map_some, verdict_eq_some_iff.mpr hobjects]
    | short hblock hle hlt hshort =>
      exact .short ((hblock_iff _ _).mpr hblock) hle hlt hshort

/-- A region carries the reasons that hold: none where it runs on the accelerator, else one for each
operator, in order. -/
structure Region.CarriesReasons (r : Region) (oracle : Oracle) (g : ValidGraph) (s : Settings) :
    Prop where
  accelerator : r.target = .accelerator → r.reasons = []
  length_eq : r.target = .general → r.reasons.length = r.operators.length
  reason_iff : r.target = .general → ∀ (k place : Nat), r.operators[k]? = some place →
    ∀ reason, r.reasons[k]? = some reason ↔ FallsBackFor oracle g s place reason

/-- Every region of the plan carries the reasons that hold. Its list keeps step with its operators
by `explained_ofVerdicts`, and each place has one reason by `Because.unique`. -/
theorem carriesReasons_withFallback {region : Region}
    (hregion : region ∈ (Plan.withFallback oracle g s).regions) :
    region.CarriesReasons oracle g s := by
  obtain ⟨r, hr, index, rfl⟩ := Run.mem_toRegions hregion
  have hexplained := Run.explained_ofVerdicts _ _ r hr
  refine ⟨hexplained.accelerator, fun hgeneral => ?_, fun hgeneral k place hk reason => ?_⟩
  · exact (hexplained.general hgeneral).length_eq.symm
  · obtain ⟨recorded, hrecorded, hwhy⟩ := hexplained.exists_reason hgeneral hk
    rw [← because_iff_fallsBackFor]
    show r.reasons[k]? = some reason ↔ _
    rw [hrecorded, Option.some_inj]
    constructor
    · rintro rfl
      exact hwhy
    · exact hwhy.unique

/-- The plan records a reason for the operator at a place. -/
def Plan.Records (plan : Plan) (place : Nat) (reason : FallbackReason) : Prop :=
  ∃ r ∈ plan.regions, r.target = .general ∧
    ∃ k : Nat, r.operators[k]? = some place ∧ r.reasons[k]? = some reason

theorem placesGeneral_withFallback_iff :
    (Plan.withFallback oracle g s).Places .general place ↔
      ∃ reason, FallsBackFor oracle g s place reason := by
  rw [Plan.Places, Plan.withFallback, exists_region_iff, Run.placesGeneral_ofVerdicts_iff]
  simp only [because_iff_fallsBackFor]

/-- What is recorded for an operator is what holds of it: some general region covers the operator,
and it carries the reason in the operator's place. -/
theorem records_withFallback_iff {reason : FallbackReason} :
    (Plan.withFallback oracle g s).Records place reason ↔
      FallsBackFor oracle g s place reason := by
  constructor
  · rintro ⟨r, hr, hgeneral, k, hplace, hreason⟩
    exact ((carriesReasons_withFallback hr).reason_iff hgeneral k place hplace reason).mp hreason
  · intro h
    obtain ⟨r, hr, hgeneral, hmem⟩ := placesGeneral_withFallback_iff.mpr ⟨reason, h⟩
    obtain ⟨k, hk⟩ := List.mem_iff_getElem?.mp hmem
    have hreason :=
      ((carriesReasons_withFallback hr).reason_iff hgeneral k place hk reason).mpr h
    exact ⟨r, hr, hgeneral, k, hk, hreason⟩

end Reasons

/-- Where operators may fall back there always is a plan. A region for the accelerator has no
reasons in it, and a general region has one for each of its operators, in order: the first objection
to the operator, or that the longest stretch of eligible operators around it is too short. -/
theorem partition_reasons_hold {raw : Graph} {g : ValidGraph} {oracle : Oracle} {s : Settings}
    (h : raw.validate = .ok g) (henabled : s.fallback.enabled = true) :
    ∃ plan, partition oracle g s = .ok plan ∧
      ∀ r ∈ plan.regions, r.CarriesReasons oracle g s := by
  have hne := (Graph.sound_of_validate h).operators_ne_nil
  exact ⟨_, partition_of_enabled hne henabled, fun _ => carriesReasons_withFallback⟩

/-! ## An instance

Everything falls back here, and for every kind of reason: two stretches of eligible operators are
too short, one operator has an excluded kind, one stands in two excluded modules, and one is
rejected. -/

/-- An accelerator that can do nothing but `conv` and `relu`. -/
def convOrRelu : SupportTable := .ofKinds ["conv", "relu"]

/-- Six operators in a row, each of which falls back. -/
def mixed : Graph :=
  { name := "mixed", inputs := ["x"],
    operators := [
      ⟨"a", "conv", [], 0, ["x"], ["t0"]⟩, ⟨"b", "relu", [], 1, ["t0"], ["t1"]⟩,
      ⟨"c", "nms", ["Net", "Head"], 2, ["t1"], ["t2"]⟩,
      ⟨"d", "conv", ["Net", "Head", "Box"], 3, ["t2"], ["t3"]⟩,
      ⟨"e", "topk", ["Net"], 4, ["t3"], ["t4"]⟩, ⟨"f", "conv", ["Net"], 5, ["t4"], ["y"]⟩],
    outputs := ["y"] }

def mixedValid : ValidGraph :=
  { mixed with
    tensors := [
      ("y", ⟨some 5, none, true⟩), ("t4", ⟨some 4, some 5, false⟩),
      ("t3", ⟨some 3, some 4, false⟩), ("t2", ⟨some 2, some 3, false⟩),
      ("t1", ⟨some 1, some 2, false⟩), ("t0", ⟨some 0, some 1, false⟩),
      ("x", ⟨none, some 0, false⟩)] }

def mixedSettings : Settings :=
  { skippingSettings with fallback := ⟨true, 3, .ofList ["nms"], .ofList ["Box", "Head"]⟩ }

/-- The plan: one general region, with six reasons of four kinds. -/
def mixedPlan : Plan :=
  .ofRuns mixedValid [
    ⟨.general, 0, 6, [
      .belowMinRegionSize 2 3, .belowMinRegionSize 2 3, .excludedOperator, .excludedModule "Head",
      .unsupported "no converter for 'topk'", .belowMinRegionSize 1 3]⟩]

/-- Each of the six operators has its own reason in the one general region. -/
theorem partition_reasons_hold_mixed :
    mixed.validate = .ok mixedValid ∧ mixedSettings.fallback.enabled = true ∧
      partition convOrRelu.toOracle mixedValid mixedSettings = .ok mixedPlan ∧
      ∀ r ∈ mixedPlan.regions, r.CarriesReasons convOrRelu.toOracle mixedValid mixedSettings := by
  have hvalid : mixed.validate = .ok mixedValid := by decide
  have hplan : partition convOrRelu.toOracle mixedValid mixedSettings = .ok mixedPlan := by decide
  have henabled : mixedSettings.fallback.enabled = true := rfl
  obtain ⟨plan, hpartition, hreasons⟩ := partition_reasons_hold hvalid henabled
  rw [hplan] at hpartition
  cases hpartition
  exact ⟨hvalid, henabled, hplan, hreasons⟩

end HybridCompile
